/-!
Texts without the control sequences of terminals.

A log may end up in a file, so what would steer a terminal is left out of its texts: control
sequences as a whole, and control characters other than tabs and line breaks one by one. A
sequence starts with the escape character and ends where its kind says. A tab or line break inside
an escape or control sequence is kept and interrupts it: what follows is text again, until the next
control character goes on with the sequence.
-/

namespace Interpose.Terminal

/-- A sequence that has started and not ended, by what it has come to. The head of a device control
string has three parts: its introducer, parameters, and intermediate characters. -/
inductive Sequence where
  | escape
  | intermediate
  | control
  | deviceStart
  | deviceParameters
  | deviceIntermediate
  | string
  | command
  deriving DecidableEq, Repr

def isBreak (c : Char) : Bool := c == '\t' || c == '\n' || c == '\x0c' || c == '\r'

def isGraphic (c : Char) : Bool := decide (' ' ≤ c ∧ c ≤ '~')

/-- A character that is left out of every text. -/
def isControl (c : Char) : Bool := decide (c.toNat < 0x80) && !isGraphic c && !isBreak c

namespace Sequence

/-- The sequence with one more graphic character; none if the character ends it. -/
def extend? (c : Char) : Sequence → Option Sequence
  | .escape =>
    if c ≤ '/' then some .intermediate
    else match c with
      | '[' => some .control
      | ']' => some .command
      | 'P' => some .deviceStart
      | 'X' | '^' | '_' => some .string
      | _ => none
  | .intermediate => if c ≤ '/' then some .intermediate else none
  | .control => if c ≤ '?' then some .control else none
  | .deviceStart =>
    if c ≤ '/' then some .deviceIntermediate
    else if c ≤ '?' then some .deviceParameters
    else some .string
  | .deviceParameters =>
    if c ≤ '/' then some .deviceIntermediate
    else if c ≤ ';' then some .deviceParameters
    else some .string
  | .deviceIntermediate => if c ≤ '/' then some .deviceIntermediate else some .string
  | .string => some .string
  | .command => some .command

def keepsBreaks : Sequence → Bool
  | .escape | .intermediate | .control => true
  | _ => false

/-- The byte that terminates a string, wherever in the encoding of a character it stands. -/
def terminator : UInt8 := 0x9c

def isEndedBy (c : Char) : Sequence → Bool
  | .command => c == '\x07'
  | .string => (String.utf8EncodeChar c).contains terminator
  | _ => false

end Sequence

/-- Where a reader stands: in the text, perhaps with a sequence that a break has interrupted, or inside
a sequence. -/
inductive Place where
  | text (interrupted : Option Sequence)
  | inside (s : Sequence)
  deriving DecidableEq, Repr

namespace Place

def ofSequence? : Option Sequence → Place
  | none => .text none
  | some s => .inside s

/-- Whether a character is kept, and where the reader stands behind it. -/
def step (p : Place) (c : Char) : Bool × Place :=
  if c = '\x1b' then (false, .inside .escape)
  else if c = '\x18' ∨ c = '\x1a' then (false, .text none)
  else match p with
    | .text interrupted =>
      if isControl c then (false, ofSequence? interrupted)
      else if c.toNat < 0x80 then (true, .text interrupted)
      else (true, .text none)
    | .inside s =>
      if isGraphic c then (false, ofSequence? (s.extend? c))
      else if isBreak c && s.keepsBreaks then (true, .text (some s))
      else if s.isEndedBy c then (false, .text none)
      else (false, .inside s)

def kept (p : Place) : List Char → List Char
  | [] => []
  | c :: cs =>
    let (keep, next) := p.step c
    if keep then c :: next.kept cs else next.kept cs

end Place

def plain (s : String) : String := String.ofList ((Place.text none).kept s.toList)

/-! ### What is kept -/

theorem isControl_of_step {p : Place} {c : Char} (h : (p.step c).1 = true) : isControl c = false := by
  unfold Place.step at h
  split at h
  · simp at h
  · split at h
    · simp at h
    · split at h
      · split at h
        · simp at h
        · rename_i hc; simpa using hc
      · split at h
        · simp at h
        · split at h
          · rename_i hb
            simp only [Bool.and_eq_true] at hb
            simp [isControl, hb.1]
          · split at h <;> simp at h

theorem kept_text {cs : List Char} (h : ∀ c ∈ cs, isControl c = false) :
    (Place.text none).kept cs = cs := by
  induction cs with
  | nil => rfl
  | cons c cs ih =>
    have hc := h c List.mem_cons_self
    have hstep : (Place.text none).step c = (true, .text none) := by
      unfold Place.step
      split
      · subst c; simp [isControl, isGraphic, isBreak] at hc
      · split
        · rename_i hc'
          rcases hc' with rfl | rfl <;> simp [isControl, isGraphic, isBreak] at hc
        · simp [hc]
    simp only [Place.kept, hstep, if_true]
    rw [ih fun d hd => h d (List.mem_cons_of_mem _ hd)]

end Interpose.Terminal

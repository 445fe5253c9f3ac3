import Interpose.Json.Reader
import Interpose.Json.Writer
import Mathlib.Data.List.Basic

/-!
A written value is read as itself.

The scan cuts the indented text of a value into the tokens of the value, whatever text follows, and
the reader that steps over the tokens of a value comes behind it. Main statement: if every string in
a value has a text, and every numeral follows the grammar, the indented text spells the value.
-/

namespace Interpose

/-! ### Numerals of the grammar -/

namespace Numeral

/-- Decimal digits, at least one. -/
def AreDigits (ds : List Char) : Prop := ds ≠ [] ∧ ∀ c ∈ ds, Token.isDigit c = true

/-- The fraction of a numeral as it is written. -/
def fractionText : Option (List Char) → List Char
  | none => []
  | some ds => '.' :: ds

/-- The exponent of a numeral as it is written. -/
def exponentText : Option (Bool × List Char) → List Char
  | none => []
  | some (neg, ds) => 'e' :: (if neg then '-' :: ds else ds)

lemma written_eq (x : Numeral) : x.written = (if x.negative then ['-'] else []) ++
    (x.whole ++ (fractionText x.fraction ++ exponentText x.exponent)) := by
  obtain ⟨negative, whole, fraction, exponent⟩ := x
  rw [written, List.append_assoc, List.append_assoc]
  rcases fraction with _ | ds <;> rcases exponent with _ | ⟨neg, es⟩ <;> rfl

/-- The parts of a numeral as the grammar has them. -/
structure IsSpelled (x : Numeral) : Prop where
  whole : AreDigits x.whole
  leading : x.whole.head? = some '0' → x.whole.length = 1
  fraction : ∀ ds, x.fraction = some ds → AreDigits ds
  exponent : ∀ neg ds, x.exponent = some (neg, ds) → AreDigits ds

lemma areDigits_toDigits (n : Nat) : AreDigits (Nat.toDigits 10 n) := by
  refine ⟨Nat.toDigits_ne_nil, fun c hc => ?_⟩
  have hdigit : c.isDigit = true := Nat.isDigit_of_mem_toDigits (by decide) (by decide) hc
  rw [Char.isDigit, Bool.and_eq_true, decide_eq_true_eq, decide_eq_true_eq] at hdigit
  exact decide_eq_true hdigit

/-- Only zero starts with a zero. -/
lemma head?_toDigits {n : Nat} (h : 0 < n) : (Nat.toDigits 10 n).head? ≠ some '0' := by
  have hdigit : ∀ d < 10, 0 < d → [Nat.digitChar d].head? ≠ some '0' := by decide
  induction n using Nat.strongRecOn with
  | ind n ih =>
    rcases Nat.lt_or_ge n 10 with hlt | hge
    · rw [Nat.toDigits_of_lt_base hlt]
      exact hdigit n hlt h
    · rw [Nat.toDigits_of_base_le (by decide) hge, List.head?_append_of_ne_nil _ Nat.toDigits_ne_nil]
      exact ih (n / 10) (by omega) (by omega)

/-- A natural number is written as the grammar has it. -/
lemma isSpelled_ofNat (n : Nat) : (ofNat n).IsSpelled := by
  refine ⟨areDigits_toDigits n, fun hzero => ?_, fun _ h => (by cases h), fun _ _ h => (by cases h)⟩
  rcases Nat.eq_zero_or_pos n with rfl | hpos
  · rfl
  · exact absurd hzero (head?_toDigits hpos)

end Numeral

namespace Token

/-! ### Strings -/

/-- No code unit of a control character is lost in its hexadecimal escape. -/
lemma hexUnit?_escape {n : Nat} (h : n < 0x20) :
    hexUnit? '0' '0' (Nat.digitChar (n / 16)) (Nat.digitChar (n % 16)) = some n := by
  decide +revert

/-- A written character is read as its own number. -/
lemma literal?_escape (units : List Nat) (c : Char) (rest : List Char) :
    literal? units (Json.escape c ++ rest) = literal? (c.toNat :: units) rest := by
  unfold Json.escape
  split
  case h_8 hquote hslash _ _ _ _ _ =>
    split
    · next hc => simp [Json.hexEscape, literal?, hexUnit?_escape hc]
    · next hc =>
      rw [List.singleton_append, literal?, if_neg hc]
      · exact hquote
      · rintro a b c' d rest' rfl
        exact absurd rfl hslash
      · rintro c' rest' rfl
        exact absurd rfl hslash
  all_goals rfl

/-- A written text is read up to its closing quote. -/
lemma literal?_quoted (units : List Nat) (cs rest : List Char) :
    literal? units (cs.flatMap Json.escape ++ '"' :: rest) =
      some (units.reverse ++ cs.map Char.toNat, rest) := by
  induction cs generalizing units with
  | nil => simp [literal?]
  | cons c cs ih =>
    rw [List.flatMap_cons, List.append_assoc, literal?_escape, ih]
    simp

lemma not_surrogate (c : Char) :
    isHighSurrogate c.toNat = false ∧ isLowSurrogate c.toNat = false := by
  have hvalid : c.toNat < 0xD800 ∨ (0xDFFF < c.toNat ∧ c.toNat < 0x110000) := c.valid
  constructor
  · exact decide_eq_false (by omega)
  · exact decide_eq_false (by omega)

/-- The numbers of characters are the code units of their text. -/
lemma unitsText?_map (done cs : List Char) :
    unitsText? done (cs.map Char.toNat) = some (String.ofList (done.reverse ++ cs)) := by
  induction cs generalizing done with
  | nil => simp [unitsText?]
  | cons c cs ih =>
    obtain ⟨hhigh, hlow⟩ := not_surrogate c
    cases cs with
    | nil => simp [unitsText?, hhigh, hlow, Char.ofNat_toNat]
    | cons d cs =>
      have hrest := ih (c :: done)
      rw [List.map_cons] at hrest
      rw [List.map_cons, List.map_cons, unitsText?, hlow, hhigh, Char.ofNat_toNat]
      simpa using hrest

/-- A written string is one token. -/
lemma next?_quoted (s : String) (rest : List Char) :
    ∃ cs, Json.quoted (some s) ++ rest = '"' :: cs ∧
      next? '"' cs = some (.str (some s), rest) := by
  refine ⟨s.toList.flatMap Json.escape ++ '"' :: rest, by simp [Json.quoted], ?_⟩
  simp [next?, literal?_quoted, unitsText?_map]

/-! ### Numerals -/

/-- The text does not go on with a numeral that has come to its end. -/
def EndsNumeral (rest : List Char) : Prop :=
  ∀ c, rest.head? = some c → isDigit c = false ∧ c ≠ '.' ∧ c ≠ 'e' ∧ c ≠ 'E'

lemma ne_of_isDigit {c d : Char} (hc : isDigit c = true) (hd : isDigit d = false) : c ≠ d := by
  rintro rfl
  rw [hc] at hd
  cases hd

lemma digits?_append {ds rest : List Char} (h : Numeral.AreDigits ds)
    (hrest : ∀ c, rest.head? = some c → isDigit c = false) :
    digits? (ds ++ rest) = some (ds, rest) := by
  have htake : rest.takeWhile isDigit = [] := by
    cases rest with
    | nil => rfl
    | cons c rest => simp [hrest c rfl]
  have hdrop : rest.dropWhile isDigit = rest := by
    cases rest with
    | nil => rfl
    | cons c rest => simp [hrest c rfl]
  unfold digits?
  rw [List.takeWhile_append_of_pos h.2, htake, List.append_nil, List.dropWhile_append_of_pos h.2,
    hdrop]
  obtain ⟨c, cs, rfl⟩ := List.exists_cons_of_ne_nil h.1
  rfl

lemma exponent?_append {e : Option (Bool × List Char)} {rest : List Char}
    (h : ∀ neg ds, e = some (neg, ds) → Numeral.AreDigits ds) (hrest : EndsNumeral rest) :
    exponent? (Numeral.exponentText e ++ rest) = some (e, rest) := by
  rcases e with _ | ⟨neg, ds⟩
  · cases rest with
    | nil => rfl
    | cons c rest =>
      obtain ⟨-, -, he, hE⟩ := hrest c rfl
      simp [Numeral.exponentText, exponent?, he, hE]
  · have hds := h neg ds rfl
    have hdigits := digits?_append hds fun c hc => (hrest c hc).1
    cases neg
    · -- without a sign the digits themselves must not be taken for one
      obtain ⟨c, cs, rfl⟩ := List.exists_cons_of_ne_nil hds.1
      have hc : isDigit c = true := hds.2 c List.mem_cons_self
      have hminus : c ≠ '-' := ne_of_isDigit hc (by decide)
      have hplus : c ≠ '+' := ne_of_isDigit hc (by decide)
      rw [List.cons_append] at hdigits
      simp [Numeral.exponentText, exponent?, hminus, hplus, hdigits]
    · simp [Numeral.exponentText, exponent?, hdigits]

lemma fraction?_append {f : Option (List Char)} {rest : List Char}
    (h : ∀ ds, f = some ds → Numeral.AreDigits ds)
    (hrest : ∀ c, rest.head? = some c → isDigit c = false ∧ c ≠ '.') :
    fraction? (Numeral.fractionText f ++ rest) = some (f, rest) := by
  rcases f with _ | ds
  · cases rest with
    | nil => rfl
    | cons c rest =>
      have hpoint : c ≠ '.' := (hrest c rfl).2
      simp [Numeral.fractionText, fraction?, hpoint]
  · have hdigits := digits?_append (h ds rfl) fun c hc => (hrest c hc).1
    simp [Numeral.fractionText, fraction?, hdigits]

/-- Behind its sign a written numeral is read up to what follows it. -/
lemma unsigned?_append {x : Numeral} (h : x.IsSpelled) {rest : List Char}
    (hrest : EndsNumeral rest) :
    unsigned? x.negative (x.whole ++ (Numeral.fractionText x.fraction ++
      (Numeral.exponentText x.exponent ++ rest))) = some (x, rest) := by
  -- no part goes on with the part behind it
  have hbehind : ∀ c, (Numeral.exponentText x.exponent ++ rest).head? = some c →
      isDigit c = false ∧ c ≠ '.' := by
    intro c hc
    rcases hexp : x.exponent with _ | ⟨neg, ds⟩
    · rw [hexp] at hc
      exact ⟨(hrest c hc).1, (hrest c hc).2.1⟩
    · rw [hexp] at hc
      cases hc
      decide
  have hfraction : ∀ c, (Numeral.fractionText x.fraction ++
      (Numeral.exponentText x.exponent ++ rest)).head? = some c → isDigit c = false := by
    intro c hc
    rcases hfrac : x.fraction with _ | ds
    · rw [hfrac] at hc
      exact (hbehind c hc).1
    · rw [hfrac] at hc
      cases hc
      decide
  have hleading : ¬(x.whole.head? = some '0' ∧ x.whole.length ≠ 1) :=
    fun ⟨hzero, hlength⟩ => hlength (h.leading hzero)
  simp only [unsigned?, digits?_append h.whole hfraction, fraction?_append h.fraction hbehind,
    exponent?_append h.exponent hrest, Option.bind_eq_bind, Option.bind_some, if_neg hleading]
  rfl

/-- A written numeral is one token. -/
lemma next?_written {x : Numeral} (h : x.IsSpelled) {rest : List Char} (hrest : EndsNumeral rest) :
    ∃ c cs, x.written ++ rest = c :: cs ∧ isBlank c = false ∧
      next? c cs = some (.num x, rest) := by
  have hunsigned := unsigned?_append h hrest
  rw [Numeral.written_eq]
  rcases hneg : x.negative
  · obtain ⟨c, cs, hwhole⟩ := List.exists_cons_of_ne_nil h.whole.1
    have hc : isDigit c = true := h.whole.2 c (hwhole ▸ List.mem_cons_self)
    rw [hneg, hwhole] at hunsigned
    refine ⟨c, _, by simp [hwhole]; rfl, ?_, ?_⟩
    · have hne {d : Char} (hd : isDigit d = false) : (c == d) = false :=
        beq_eq_false_iff_ne.2 (ne_of_isDigit hc hd)
      rw [isBlank, hne (by decide), hne (by decide), hne (by decide), hne (by decide)]
      rfl
    · rw [next?]
      · simp only [List.cons_append] at hunsigned
        simp [hunsigned]
      all_goals exact ne_of_isDigit hc (by decide)
  · rw [hneg] at hunsigned
    exact ⟨'-', _, by simp; rfl, rfl, by simp [next?, hunsigned]⟩

/-! ### One token at a time -/

lemma scan?_blank {c : Char} (hc : isBlank c = true) (done : List Token) (rest : List Char) :
    scan? done (c :: rest) = scan? done rest := by
  rw [scan?, if_pos hc]

lemma scan?_of_next? {c : Char} {cs rest : List Char} {t : Token} (hc : isBlank c = false)
    (h : next? c cs = some (t, rest)) (done : List Token) :
    scan? done (c :: cs) = scan? (t :: done) rest := by
  rw [scan?, if_neg (by simp [hc])]
  split
  · next hnone =>
    rw [h] at hnone
    cases hnone
  · next t' rest' hsome =>
    rw [h] at hsome
    cases hsome
    rfl

lemma scan?_lineBreak (done : List Token) (depth : Nat) (rest : List Char) :
    scan? done (Json.lineBreak depth ++ rest) = scan? done rest := by
  have hspaces (n : Nat) : scan? done (List.replicate n ' ' ++ rest) = scan? done rest := by
    induction n with
    | zero => rfl
    | succ n ih => rw [List.replicate_succ, List.cons_append, scan?_blank rfl, ih]
  rw [Json.lineBreak, List.cons_append, scan?_blank rfl, hspaces]

lemma scan?_quoted (done : List Token) (s : String) (rest : List Char) :
    scan? done (Json.quoted (some s) ++ rest) = scan? (.str (some s) :: done) rest := by
  obtain ⟨cs, hcs, hnext⟩ := next?_quoted s rest
  rw [hcs, scan?_of_next? rfl hnext]

lemma scan?_written (done : List Token) {x : Numeral} (h : x.IsSpelled) {rest : List Char}
    (hrest : EndsNumeral rest) : scan? done (x.written ++ rest) = scan? (.num x :: done) rest := by
  obtain ⟨c, cs, hcs, hc, hnext⟩ := next?_written h hrest
  rw [hcs, scan?_of_next? hc hnext]

end Token

namespace Json

/-! ### The tokens of a value -/

mutual

/-- The tokens that spell a value. -/
def tokens : Json → List Token
  | .null => [.null]
  | .bool b => [.bool b]
  | .num x => [.num x]
  | .str s => [.str s]
  | .arr [] => [.openArray, .closeArray]
  | .arr (v :: vs) => .openArray :: (tokens v ++ itemTokens vs)
  | .obj [] => [.openObject, .closeObject]
  | .obj ((k, v) :: ms) => .openObject :: .str k :: .colon :: (tokens v ++ memberTokens ms)

/-- The tokens of the items after the first, and of the closing bracket. -/
def itemTokens : List Json → List Token
  | [] => [.closeArray]
  | v :: vs => .comma :: (tokens v ++ itemTokens vs)

/-- The tokens of the members after the first, and of the closing brace. -/
def memberTokens : List (Option String × Json) → List Token
  | [] => [.closeObject]
  | (k, v) :: ms => .comma :: .str k :: .colon :: (tokens v ++ memberTokens ms)

end

mutual

/-- Every string in the value has a text, and every numeral follows the grammar. -/
def IsSpelled : Json → Prop
  | .null => True
  | .bool _ => True
  | .num x => x.IsSpelled
  | .str s => s.isSome = true
  | .arr vs => AreSpelled vs
  | .obj ms => AreMembersSpelled ms

def AreSpelled : List Json → Prop
  | [] => True
  | v :: vs => IsSpelled v ∧ AreSpelled vs

def AreMembersSpelled : List (Option String × Json) → Prop
  | [] => True
  | (k, v) :: ms => k.isSome = true ∧ IsSpelled v ∧ AreMembersSpelled ms

end

/-! ### The text is cut into the tokens -/

lemma endsNumeral_nil : Token.EndsNumeral [] := by
  intro c hc
  cases hc

lemma endsNumeral_prettyItems (depth : Nat) (vs : List Json) (rest : List Char) :
    Token.EndsNumeral (prettyItems depth vs ++ rest) := by
  intro c hc
  cases vs <;>
  · simp [prettyItems, lineBreak] at hc
    subst hc
    decide

lemma endsNumeral_prettyMembers (depth : Nat) (ms : List (Option String × Json))
    (rest : List Char) : Token.EndsNumeral (prettyMembers depth ms ++ rest) := by
  intro c hc
  cases ms <;>
  · simp [prettyMembers, lineBreak] at hc
    subst hc
    decide

mutual

/-- The scan cuts a written value into its tokens. -/
theorem scan?_prettyChars (depth : Nat) (v : Json) (h : v.IsSpelled) (done : List Token)
    {rest : List Char} (hrest : Token.EndsNumeral rest) :
    Token.scan? done (v.prettyChars depth ++ rest) =
      Token.scan? (v.tokens.reverse ++ done) rest := by
  match v with
  | .null => exact Token.scan?_of_next? rfl rfl done
  | .bool true => exact Token.scan?_of_next? rfl rfl done
  | .bool false => exact Token.scan?_of_next? rfl rfl done
  | .num x => exact Token.scan?_written done h hrest
  | .str (some s) => exact Token.scan?_quoted done s rest
  | .arr [] =>
    have hclose : Token.scan? (.openArray :: done) (']' :: rest) = _ :=
      Token.scan?_of_next? rfl rfl _
    exact (Token.scan?_of_next? rfl rfl done).trans hclose
  | .arr (v :: vs) =>
    have hitems := endsNumeral_prettyItems depth vs rest
    simp only [prettyChars, tokens, List.cons_append, List.append_assoc]
    rw [Token.scan?_of_next? rfl rfl, Token.scan?_lineBreak,
      scan?_prettyChars (depth + 1) v h.1 _ hitems, scan?_prettyItems depth vs h.2]
    simp
  | .obj [] =>
    have hclose : Token.scan? (.openObject :: done) ('\x7d' :: rest) = _ :=
      Token.scan?_of_next? rfl rfl _
    exact (Token.scan?_of_next? rfl rfl done).trans hclose
  | .obj ((some k, v) :: ms) =>
    have hmembers := endsNumeral_prettyMembers depth ms rest
    simp only [prettyChars, tokens, List.cons_append, List.append_assoc]
    rw [Token.scan?_of_next? rfl rfl, Token.scan?_lineBreak, Token.scan?_quoted,
      Token.scan?_of_next? rfl rfl, Token.scan?_blank rfl,
      scan?_prettyChars (depth + 1) v h.2.1 _ hmembers, scan?_prettyMembers depth ms h.2.2]
    simp

theorem scan?_prettyItems (depth : Nat) (vs : List Json) (h : AreSpelled vs) (done : List Token)
    (rest : List Char) :
    Token.scan? done (prettyItems depth vs ++ rest) =
      Token.scan? ((itemTokens vs).reverse ++ done) rest := by
  match vs with
  | [] =>
    simp only [prettyItems, List.append_assoc, List.singleton_append]
    rw [Token.scan?_lineBreak, Token.scan?_of_next? rfl rfl]
    rfl
  | v :: vs =>
    have hitems := endsNumeral_prettyItems depth vs rest
    simp only [prettyItems, itemTokens, List.cons_append, List.append_assoc]
    rw [Token.scan?_of_next? rfl rfl, Token.scan?_lineBreak,
      scan?_prettyChars (depth + 1) v h.1 _ hitems, scan?_prettyItems depth vs h.2]
    simp

theorem scan?_prettyMembers (depth : Nat) (ms : List (Option String × Json))
    (h : AreMembersSpelled ms) (done : List Token) (rest : List Char) :
    Token.scan? done (prettyMembers depth ms ++ rest) =
      Token.scan? ((memberTokens ms).reverse ++ done) rest := by
  match ms with
  | [] =>
    simp only [prettyMembers, List.append_assoc, List.singleton_append]
    rw [Token.scan?_lineBreak, Token.scan?_of_next? rfl rfl]
    rfl
  | (some k, v) :: ms =>
    have hmembers := endsNumeral_prettyMembers depth ms rest
    simp only [prettyMembers, memberTokens, List.cons_append, List.append_assoc]
    rw [Token.scan?_of_next? rfl rfl, Token.scan?_lineBreak, Token.scan?_quoted,
      Token.scan?_of_next? rfl rfl, Token.scan?_blank rfl,
      scan?_prettyChars (depth + 1) v h.2.1 _ hmembers, scan?_prettyMembers depth ms h.2.2]
    simp

end

/-! ### The reader steps over the tokens -/

/-- Behind an opening bracket the first item is read like any value, as no value starts with a
closing bracket. -/
lemma run?_atFirstItem (frames : List Frame) (v : Json) (ts : List Token) :
    (Cursor.atFirstItem frames).run? (v.tokens ++ ts) =
      (Cursor.atValue (.items [] :: frames)).run? (v.tokens ++ ts) := by
  match v with
  | .null | .bool _ | .num _ | .str _ => rfl
  | .arr [] | .arr (_ :: _) => rfl
  | .obj [] | .obj ((_, _) :: _) => rfl

mutual

/-- The reader comes behind a value when it steps over its tokens. -/
theorem run?_tokens (v : Json) (frames : List Frame) (ts : List Token) :
    (Cursor.atValue frames).run? (v.tokens ++ ts) = (Cursor.behind v frames).run? ts := by
  match v with
  | .null | .bool _ | .num _ | .str _ => rfl
  | .arr [] => rfl
  | .arr (v :: vs) =>
    have hfirst : (Cursor.atValue frames).run? ((Json.arr (v :: vs)).tokens ++ ts) =
        (Cursor.atFirstItem frames).run? (v.tokens ++ (itemTokens vs ++ ts)) := by
      rw [tokens, List.cons_append, List.append_assoc]
      rfl
    rw [hfirst, run?_atFirstItem, run?_tokens v, run?_itemTokens vs]
    rfl
  | .obj [] => rfl
  | .obj ((k, v) :: ms) =>
    have hfirst : (Cursor.atValue frames).run? ((Json.obj ((k, v) :: ms)).tokens ++ ts) =
        (Cursor.atValue (.member [] k :: frames)).run?
          (v.tokens ++ (memberTokens ms ++ ts)) := by
      rw [tokens, List.cons_append, List.cons_append, List.cons_append, List.append_assoc]
      rfl
    rw [hfirst, run?_tokens v, run?_memberTokens ms]
    rfl

theorem run?_itemTokens (vs : List Json) (v : Json) (before : List Json) (frames : List Frame)
    (ts : List Token) :
    (Cursor.behind v (.items before :: frames)).run? (itemTokens vs ++ ts) =
      (Cursor.behind (.arr ((v :: before).reverse ++ vs)) frames).run? ts := by
  match vs with
  | [] =>
    rw [List.append_nil]
    rfl
  | w :: vs =>
    have hnext : (Cursor.behind v (.items before :: frames)).run? (itemTokens (w :: vs) ++ ts) =
        (Cursor.atValue (.items (v :: before) :: frames)).run?
          (w.tokens ++ (itemTokens vs ++ ts)) := by
      rw [itemTokens, List.cons_append, List.append_assoc]
      rfl
    rw [hnext, run?_tokens w, run?_itemTokens vs]
    simp

theorem run?_memberTokens (ms : List (Option String × Json)) (k : Option String) (v : Json)
    (before : List (Option String × Json)) (frames : List Frame) (ts : List Token) :
    (Cursor.behind v (.member before k :: frames)).run? (memberTokens ms ++ ts) =
      (Cursor.behind (.obj (((k, v) :: before).reverse ++ ms)) frames).run? ts := by
  match ms with
  | [] =>
    rw [List.append_nil]
    rfl
  | (k', w) :: ms =>
    have hnext :
        (Cursor.behind v (.member before k :: frames)).run? (memberTokens ((k', w) :: ms) ++ ts) =
          (Cursor.atValue (.member ((k, v) :: before) k' :: frames)).run?
            (w.tokens ++ (memberTokens ms ++ ts)) := by
      rw [memberTokens, List.cons_append, List.cons_append, List.cons_append, List.append_assoc]
      rfl
    rw [hnext, run?_tokens w, run?_memberTokens ms]
    simp

end

/-- **Written values are read as themselves**, from their indented texts. -/
theorem parse?_pretty {v : Json} (h : v.IsSpelled) : parse? v.pretty = some v := by
  have hscan : Token.scan? [] (v.prettyChars 0) = some v.tokens := by
    have hcut := scan?_prettyChars 0 v h [] endsNumeral_nil
    rw [List.append_nil, List.append_nil] at hcut
    rw [hcut, Token.scan?, List.reverse_reverse]
  have hrun : (Cursor.atValue []).run? v.tokens = some (.behind v []) := by
    have hread := run?_tokens v [] []
    rwa [List.append_nil] at hread
  rw [parse?, pretty, String.toList_ofList, hscan, Option.bind_some, ofTokens?, hrun]

end Json

end Interpose

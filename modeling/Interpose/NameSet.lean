/-!
Sets of names, kept in increasing order without repetitions.
-/

namespace Interpose

structure NameSet where
  names : List String
  deriving DecidableEq, Repr

namespace NameSet

def empty : NameSet := ⟨[]⟩

/-- A name put at its place in an ordered list, unless it is there. -/
def insertInto (n : String) : List String → List String
  | [] => [n]
  | m :: ms => if n < m then n :: m :: ms else if n = m then m :: ms else m :: insertInto n ms

def insert (n : String) (s : NameSet) : NameSet := ⟨insertInto n s.names⟩

def ofList (ns : List String) : NameSet := ns.foldl (fun s n => s.insert n) empty

def contains (s : NameSet) (n : String) : Bool := s.names.contains n

theorem mem_insertInto {n m : String} {ms : List String} :
    m ∈ insertInto n ms ↔ m = n ∨ m ∈ ms := by
  induction ms with
  | nil => simp [insertInto]
  | cons k ms ih =>
    rw [insertInto]
    split
    · simp
    · split
      · rename_i h; subst h; simp
      · simp only [List.mem_cons, ih]
        exact ⟨fun h => by rcases h with h | h | h <;> simp [h],
          fun h => by rcases h with h | h | h <;> simp [h]⟩

@[simp] theorem contains_insert {n m : String} {s : NameSet} :
    (s.insert n).contains m = (m == n || s.contains m) := by
  rw [Bool.eq_iff_iff]
  simp [insert, contains, mem_insertInto]

end NameSet

end Interpose

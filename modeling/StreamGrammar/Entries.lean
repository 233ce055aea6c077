/-!
# Entries under keys

A mapping whose order can be seen: its entries stand in the order in which
their keys first came, and a key that comes again replaces the value in its
old place. `get?_put` and `keys_put` say so, and nothing else is needed of it.
-/

namespace StreamGrammar

/-- Entries under keys, in order. -/
abbrev Entries (κ ν : Type) := List (κ × ν)

namespace Entries

variable {κ ν : Type} [DecidableEq κ]

/-- The value under a key. -/
def get? (entries : Entries κ ν) (key : κ) : Option ν :=
  (entries.find? fun e => e.1 = key).map Prod.snd

/-- Puts a value under a key: in the place of the key's entry if it has one,
and else at the end. -/
def put : Entries κ ν → κ → ν → Entries κ ν
  | [], key, value => [(key, value)]
  | (k, v) :: rest, key, value =>
    if k = key then (k, value) :: rest else (k, v) :: put rest key value

/-- The entries that pairs leave when they are put in one after another. -/
def ofPairs (pairs : List (κ × ν)) : Entries κ ν :=
  pairs.foldl (fun entries p => put entries p.1 p.2) []

@[simp] theorem get?_put (entries : Entries κ ν) (key key' : κ) (value : ν) :
    get? (put entries key value) key' = if key = key' then some value else get? entries key' := by
  induction entries with
  | nil => by_cases h : key = key' <;> simp [put, get?, h]
  | cons e rest ih =>
    obtain ⟨k, v⟩ := e
    simp only [get?] at ih
    by_cases h : k = key
    · subst h
      by_cases h' : k = key' <;> simp [put, get?, h']
    · by_cases h' : k = key'
      · subst h'
        simp [put, get?, h, Ne.symm h]
      · simp [put, get?, h, h', ih]

/-- **A key that is put in keeps its place**, and a new one comes last. -/
theorem keys_put (entries : Entries κ ν) (key : κ) (value : ν) :
    (put entries key value).map Prod.fst =
      if key ∈ entries.map Prod.fst then entries.map Prod.fst
      else entries.map Prod.fst ++ [key] := by
  induction entries with
  | nil => simp [put]
  | cons e rest ih =>
    obtain ⟨k, v⟩ := e
    by_cases h : k = key
    · simp [put, h]
    · have hk : ¬key = k := fun hh => h hh.symm
      simp only [put, h, if_false, List.map_cons, ih, List.mem_cons, hk, false_or]
      split <;> simp

end Entries

end StreamGrammar

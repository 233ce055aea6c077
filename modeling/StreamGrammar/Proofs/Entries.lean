import Mathlib.Data.List.Induction
import StreamGrammar.Entries

/-!
# Keys that differ

Putting pairs in one after another leaves them as they are, unless a key comes
again: only then is a place kept and a value replaced. The keys of what results
differ in any case, and where keys differ an entry is found under its key. So
what results is known from the pairs: which of them settles the place of a key,
and which its value (`Gathers`).
-/

namespace StreamGrammar.Entries

variable {κ ν : Type} [DecidableEq κ]

/-- A new key comes last. -/
theorem put_of_not_mem {entries : Entries κ ν} {key : κ} (h : key ∉ entries.map Prod.fst)
    (value : ν) : put entries key value = entries ++ [(key, value)] := by
  induction entries with
  | nil => rfl
  | cons e rest ih =>
    obtain ⟨k, v⟩ := e
    rw [List.map_cons, List.mem_cons, not_or] at h
    rw [put, if_neg (fun hk => h.1 hk.symm), ih h.2, List.cons_append]

/-- **Pairs under different keys are entries as they stand.** -/
theorem ofPairs_of_nodup {pairs : List (κ × ν)} (h : (pairs.map Prod.fst).Nodup) :
    ofPairs pairs = pairs := by
  have hfold : ∀ (entries pairs : List (κ × ν)), ((entries ++ pairs).map Prod.fst).Nodup →
      pairs.foldl (fun entries p => put entries p.1 p.2) entries = entries ++ pairs := by
    intro entries pairs hkeys
    induction pairs generalizing entries with
    | nil => rw [List.foldl_nil, List.append_nil]
    | cons p pairs ih =>
      rw [List.append_cons] at hkeys
      have hnew : p.1 ∉ entries.map Prod.fst := by
        rw [List.map_append, List.map_append, List.append_assoc, List.nodup_append] at hkeys
        exact fun hmem => hkeys.2.2 p.1 hmem p.1 List.mem_cons_self rfl
      rw [List.foldl_cons, put_of_not_mem hnew, ih _ hkeys, List.append_assoc,
        List.singleton_append]
  exact hfold [] pairs h

/-- An entry that is there after a value was put in was there before, or is the one
put in. -/
theorem mem_of_mem_put {entries : Entries κ ν} {key : κ} {value : ν} {e : κ × ν}
    (h : e ∈ put entries key value) : e ∈ entries ∨ e = (key, value) := by
  induction entries with
  | nil => exact .inr (List.mem_singleton.mp h)
  | cons first rest ih =>
    rw [put] at h
    split at h
    · rename_i hkey
      rcases List.mem_cons.mp h with rfl | h
      · exact .inr (by rw [hkey])
      · exact .inl (List.mem_cons_of_mem _ h)
    · rcases List.mem_cons.mp h with rfl | h
      · exact .inl List.mem_cons_self
      · exact (ih h).imp_left (List.mem_cons_of_mem _)

theorem nodup_put {entries : Entries κ ν} (h : (entries.map Prod.fst).Nodup) (key : κ)
    (value : ν) : ((put entries key value).map Prod.fst).Nodup := by
  rw [keys_put]
  split
  · exact h
  · rename_i hnew
    exact List.nodup_append.mpr ⟨h, by simp, fun k hk l hl => by
      rw [List.mem_singleton.mp hl]
      exact fun heq => hnew (heq ▸ hk)⟩

/-- **Whatever pairs are put in, the keys of the entries differ**, and every entry is
one of the pairs. -/
theorem ofPairs_spec (pairs : List (κ × ν)) :
    ((ofPairs pairs).map Prod.fst).Nodup ∧ ∀ e ∈ ofPairs pairs, e ∈ pairs := by
  have hfold : ∀ (entries pairs : List (κ × ν)), (entries.map Prod.fst).Nodup →
      ((pairs.foldl (fun entries p => put entries p.1 p.2) entries).map Prod.fst).Nodup ∧
        ∀ e ∈ pairs.foldl (fun entries p => put entries p.1 p.2) entries,
          e ∈ entries ∨ e ∈ pairs := by
    intro entries pairs hkeys
    induction pairs generalizing entries with
    | nil => exact ⟨hkeys, fun _ he => .inl he⟩
    | cons p pairs ih =>
      obtain ⟨hnodup, hmem⟩ := ih _ (nodup_put hkeys p.1 p.2)
      refine ⟨hnodup, fun e he => ?_⟩
      rcases hmem e he with h | h
      · rcases mem_of_mem_put h with h | rfl
        · exact .inl h
        · exact .inr List.mem_cons_self
      · exact .inr (List.mem_cons_of_mem _ h)
  obtain ⟨hnodup, hmem⟩ := hfold [] pairs List.nodup_nil
  exact ⟨hnodup, fun e he => (hmem e he).resolve_left List.not_mem_nil⟩

/-- There is a value under the keys, and under no other key. -/
theorem isSome_get?_iff {entries : Entries κ ν} {key : κ} :
    (get? entries key).isSome ↔ key ∈ entries.map Prod.fst := by
  rw [get?, Option.isSome_map, List.find?_isSome]
  simp [eq_comm]

/-- **Under different keys each entry is found.** -/
theorem get?_of_mem {entries : Entries κ ν} (h : (entries.map Prod.fst).Nodup) {key : κ}
    {value : ν} (hmem : (key, value) ∈ entries) : get? entries key = some value := by
  induction entries with
  | nil => cases hmem
  | cons e rest ih =>
    rw [List.map_cons, List.nodup_cons] at h
    rcases List.mem_cons.mp hmem with rfl | hmem
    · simp [get?]
    · have hne : e.1 ≠ key := fun hkey => h.1 (hkey ▸ List.mem_map_of_mem hmem)
      rw [get?, List.find?_cons_of_neg (by simpa using hne)]
      exact ih h.2 hmem

/-- **What entries gather from pairs**: every key in the place where it first came,
with the value that came with it last. -/
structure Gathers (pairs : List (κ × ν)) (entries : Entries κ ν) : Prop where
  /-- The keys are in the order in which they first came. -/
  keys : entries.map Prod.fst = (pairs.map Prod.fst).eraseDups
  /-- Under each key is the last of its values. -/
  values : ∀ key, get? entries key = (pairs.reverse.find? fun p => p.1 = key).map Prod.snd

/-- **Pairs that are put in one after another are gathered.** -/
theorem gathers_ofPairs (pairs : List (κ × ν)) : Gathers pairs (ofPairs pairs) := by
  induction pairs using List.reverseRecOn with
  | nil => exact ⟨rfl, fun _ => rfl⟩
  | append_singleton pairs p ih =>
    have hlast : ofPairs (pairs ++ [p]) = put (ofPairs pairs) p.1 p.2 := by
      rw [ofPairs, List.foldl_append]
      rfl
    rw [hlast]
    refine ⟨?_, fun key => ?_⟩
    · rw [keys_put, ih.keys, List.map_append, List.eraseDups_append, List.map_singleton]
      by_cases hmem : p.1 ∈ pairs.map Prod.fst
      · have hold : [p.1].removeAll (pairs.map Prod.fst) = [] := by
          simpa [List.removeAll] using hmem
        rw [if_pos (List.mem_eraseDups.mpr hmem), hold, List.eraseDups_nil, List.append_nil]
      · have hnew : [p.1].removeAll (pairs.map Prod.fst) = [p.1] := by
          simpa [List.removeAll] using hmem
        rw [if_neg (mt List.mem_eraseDups.mp hmem), hnew]
        rfl
    · rw [get?_put, ih.values, List.reverse_append, List.reverse_singleton,
        List.singleton_append, List.find?_cons]
      by_cases hkey : p.1 = key <;> simp [hkey]

end StreamGrammar.Entries

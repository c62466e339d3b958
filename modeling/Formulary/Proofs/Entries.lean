import Formulary.Entries
import Mathlib.Data.List.Induction

/-! What putting entries into a map does to its keys and to what is found at them. -/

namespace Formulary.Entries

variable {κ α : Type} [BEq κ]

theorem get?_cons (key other : κ) (value : α) (entries : Entries κ α) :
    get? key ((other, value) :: entries) = if other == key then some value else get? key entries := by
  unfold get?
  cases h : other == key <;> simp [List.find?, h]

theorem get?_erase_of_none {key other : κ} {entries : Entries κ α} (h : get? key entries = none) :
    get? key (erase other entries) = none := by
  simp only [get?, Option.map_eq_none_iff, List.find?_eq_none] at h ⊢
  intro entry mem
  exact h entry (List.mem_filter.1 mem).1

/-- The pairs whose key did not come before. -/
def firsts : List (κ × α) → List (κ × α)
  | [] => []
  | pair :: rest => pair :: (firsts rest).filter fun other => !(other.1 == pair.1)

/-- The value that came last with a key. -/
def lastValue (key : κ) (pairs : List (κ × α)) : Option α :=
  get? key pairs.reverse

/-- Of pairs with equal keys the first key, with the last value. -/
def settled (pairs : List (κ × α)) : Entries κ α :=
  (firsts pairs).map fun pair => (pair.1, (lastValue pair.1 pairs).getD pair.2)

theorem lastValue_concat (key : κ) (pairs : List (κ × α)) (pair : κ × α) :
    lastValue key (pairs ++ [pair]) = if pair.1 == key then some pair.2 else lastValue key pairs := by
  rw [lastValue, List.reverse_concat, get?_cons]
  rfl

theorem firsts_subset (pairs : List (κ × α)) : firsts pairs ⊆ pairs := by
  induction pairs with
  | nil => exact List.Subset.refl _
  | cons pair rest ih =>
    exact List.cons_subset_cons _ fun other mem => ih (List.mem_filter.1 mem).1

theorem pairwise_firsts (pairs : List (κ × α)) :
    (firsts pairs).Pairwise fun first second => (second.1 == first.1) = false := by
  induction pairs with
  | nil => exact .nil
  | cons pair rest ih =>
    refine List.pairwise_cons.2 ⟨fun other mem => ?_, ih.filter _⟩
    simpa using (List.mem_filter.1 mem).2

section Equivalent

variable [EquivBEq κ]

/-- First pairs stand in the order in which they come. -/
theorem pairwise_findIdx_firsts (pairs : List (κ × α)) :
    (firsts pairs).Pairwise fun first second =>
      pairs.findIdx (·.1 == first.1) < pairs.findIdx (·.1 == second.1) := by
  induction pairs with
  | nil => exact .nil
  | cons pair rest ih =>
    have later {other : κ × α} (mem : other ∈ (firsts rest).filter fun other => !(other.1 == pair.1)) :
        (pair :: rest).findIdx (·.1 == other.1) = rest.findIdx (·.1 == other.1) + 1 := by
      have differs : (pair.1 == other.1) = false := by
        rw [BEq.comm]
        simpa using (List.mem_filter.1 mem).2
      simp [List.findIdx_cons, differs]
    refine List.pairwise_cons.2 ⟨fun other mem => ?_, (ih.filter _).imp_of_mem fun mem mem' earlier => ?_⟩
    · rw [later mem]
      simp [List.findIdx_cons]
    · rw [later mem, later mem']
      exact Nat.succ_lt_succ earlier

theorem firsts_concat (pairs : List (κ × α)) (pair : κ × α) :
    firsts (pairs ++ [pair]) =
      if pairs.any (·.1 == pair.1) then firsts pairs else firsts pairs ++ [pair] := by
  induction pairs with
  | nil => rfl
  | cons head rest ih =>
    rw [List.cons_append, firsts, ih, firsts, List.any_cons]
    by_cases here : head.1 == pair.1
    · have gone : (pair.1 == head.1) = true := BEq.symm here
      by_cases later : rest.any (·.1 == pair.1) <;> simp [here, later, gone]
    · have stays : (pair.1 == head.1) = false := by
        rw [BEq.comm]
        simpa using here
      by_cases later : rest.any (·.1 == pair.1) <;> simp [here, later, stays]

/-- Where no two keys are equal, a pair takes the place of the entry with its key or comes last. -/
theorem put_eq {entries : Entries κ α} (key : κ) (value : α)
    (apart : entries.Pairwise fun first second => (second.1 == first.1) = false) :
    put key value entries =
      if entries.any (·.1 == key) then entries.map fun entry => if entry.1 == key then (entry.1, value) else entry
      else entries ++ [(key, value)] := by
  induction entries with
  | nil => rfl
  | cons entry rest ih =>
    obtain ⟨away, others⟩ := List.pairwise_cons.1 apart
    obtain ⟨other, old⟩ := entry
    by_cases here : other == key
    · have same : rest.map (fun entry => if entry.1 == key then (entry.1, value) else entry) = rest := by
        refine (List.map_congr_left fun entry mem => if_neg ?_).trans (List.map_id _)
        intro equal
        exact absurd (BEq.trans equal (BEq.symm here)) (by simp [away entry mem])
      simp [put, here, same]
    · rw [put, if_neg here, ih others]
      by_cases later : rest.any (·.1 == key) <;> simp [here, later]

theorem any_firsts (key : κ) (pairs : List (κ × α)) :
    (firsts pairs).any (·.1 == key) = pairs.any (·.1 == key) := by
  induction pairs with
  | nil => rfl
  | cons pair rest ih =>
    by_cases here : pair.1 == key
    · simp [firsts, here]
    · have other : ∀ entry : κ × α, (!(entry.1 == pair.1) && entry.1 == key) = (entry.1 == key) := by
        intro entry
        cases equal : entry.1 == key with
        | false => exact Bool.and_false _
        | true =>
          rw [Bool.and_true, Bool.not_eq_true']
          exact Bool.eq_false_iff.2 fun both => here (BEq.trans (BEq.symm both) equal)
      rw [firsts, List.any_cons, List.any_cons, List.any_filter]
      simp only [other, ih]

theorem mem_firsts_iff (pair : κ × α) (pairs : List (κ × α)) :
    pair ∈ firsts pairs ↔ pairs.find? (·.1 == pair.1) = some pair := by
  induction pairs with
  | nil => simp [firsts]
  | cons head rest ih =>
    simp only [firsts, List.mem_cons, List.mem_filter, ih, List.find?_cons, Bool.not_eq_true']
    cases here : head.1 == pair.1 with
    | true =>
      have gone : (pair.1 == head.1) = true := BEq.symm here
      simp [gone, eq_comm]
    | false =>
      have stays : (pair.1 == head.1) = false := BEq.comm.trans here
      have other : pair ≠ head := fun same => by simp [same] at here
      simp [stays, other]

/-- A map made from pairs has of equal keys the first, with the value of the last. -/
theorem ofList_eq_settled (pairs : List (κ × α)) : ofList pairs = settled pairs := by
  induction pairs using List.reverseRecOn with
  | nil => rfl
  | append_singleton pairs pair ih =>
    have apart : (settled pairs).Pairwise fun first second => (second.1 == first.1) = false :=
      List.pairwise_map.2 (pairwise_firsts pairs)
    have there : (settled pairs).any (·.1 == pair.1) = pairs.any (·.1 == pair.1) := by
      rw [settled, List.any_map]
      exact any_firsts pair.1 pairs
    have step : ofList (pairs ++ [pair]) = put pair.1 pair.2 (ofList pairs) := by
      simp [ofList, putAll]
    rw [step, ih, put_eq pair.1 pair.2 apart, there]
    simp only [settled, firsts_concat]
    split
    · rw [List.map_map]
      refine List.map_congr_left fun entry mem => ?_
      rw [Function.comp_apply, lastValue_concat, BEq.comm (a := pair.1)]
      split <;> rfl
    · rename_i new
      rw [List.map_append]
      congr 1
      · refine List.map_congr_left fun entry mem => ?_
        have differs : (pair.1 == entry.1) = false := by
          rw [BEq.comm]
          exact Bool.eq_false_iff.2 fun equal =>
            new (List.any_eq_true.2 ⟨entry, firsts_subset pairs mem, equal⟩)
        rw [lastValue_concat, differs]
        rfl
      · simp [lastValue_concat]

end Equivalent

variable [LawfulBEq κ]

theorem keys_put (key : κ) (value : α) (entries : Entries κ α) :
    (put key value entries).keys = if key ∈ entries.keys then entries.keys else entries.keys ++ [key] := by
  induction entries with
  | nil => simp [put, keys]
  | cons entry rest ih =>
    obtain ⟨other, old⟩ := entry
    by_cases same : other = key
    · simp [put, keys, same]
    · simp only [keys] at ih
      simp only [put, beq_iff_eq, same, if_false, keys, List.map_cons, ih, List.mem_cons, Ne.symm same, false_or]
      by_cases mem : key ∈ rest.map (·.1) <;> simp [mem]

theorem get?_put (key other : κ) (value : α) (entries : Entries κ α) :
    get? other (put key value entries) = if key == other then some value else get? other entries := by
  induction entries with
  | nil => simp [put, get?]
  | cons entry rest ih =>
    obtain ⟨first, old⟩ := entry
    by_cases same : first = key
    · subst same
      by_cases found : first = other <;> simp [put, get?_cons, found]
    · by_cases found : first = other
      · subst found
        simp [put, get?_cons, same, Ne.symm same]
      · simp [put, get?_cons, same, found, ih]

theorem keys_prefix_keys_putAll (pairs : List (κ × α)) (entries : Entries κ α) :
    entries.keys <+: (putAll pairs entries).keys := by
  induction pairs generalizing entries with
  | nil => exact List.prefix_refl _
  | cons pair rest ih =>
    refine List.IsPrefix.trans ?_ (ih (put pair.1 pair.2 entries))
    rw [keys_put]
    split
    · exact List.prefix_refl _
    · exact List.prefix_append _ _

/-- The last pair with a key gives its value. -/
theorem get?_putAll (key : κ) (pairs : List (κ × α)) (entries : Entries κ α) :
    get? key (putAll pairs entries) = (get? key pairs.reverse).or (get? key entries) := by
  induction pairs generalizing entries with
  | nil => simp [putAll, get?]
  | cons pair rest ih =>
    have tail := ih (put pair.1 pair.2 entries)
    simp only [putAll, List.foldl_cons] at tail ⊢
    rw [tail, get?_put]
    simp only [get?, List.reverse_cons, List.find?_append]
    cases List.find? (fun entry => entry.1 == key) rest.reverse with
    | some found => rfl
    | none => cases h : pair.1 == key <;> simp [h]

theorem mem_keys_putAll {key : κ} {pairs : List (κ × α)} {entries : Entries κ α} :
    key ∈ (putAll pairs entries).keys ↔ key ∈ entries.keys ∨ key ∈ keys pairs := by
  induction pairs generalizing entries with
  | nil => simp [putAll, keys]
  | cons pair rest ih =>
    have tail : key ∈ (putAll (pair :: rest) entries).keys ↔ key ∈ (put pair.1 pair.2 entries).keys ∨ key ∈ keys rest :=
      ih
    have first : key ∈ keys (pair :: rest) ↔ key = pair.1 ∨ key ∈ keys rest := List.mem_cons
    rw [tail, keys_put, first, ← or_assoc]
    refine or_congr_left ?_
    split
    · rename_i there
      exact ⟨.inl, fun h => h.elim id fun same => same ▸ there⟩
    · exact List.mem_append.trans (or_congr_right List.mem_singleton)

/-- The keys of a map made from pairs stand in the order in which they first came. -/
theorem keys_ofList (pairs : List (κ × α)) : (ofList pairs).keys = (keys pairs).eraseDups := by
  induction pairs using List.reverseRecOn with
  | nil => rfl
  | append_singleton pairs pair ih =>
    have step : ofList (pairs ++ [pair]) = put pair.1 pair.2 (ofList pairs) := by
      simp [ofList, putAll]
    have last : keys (pairs ++ [pair]) = keys pairs ++ [pair.1] := by
      simp [keys]
    have single : [pair.1].eraseDups = [pair.1] := rfl
    rw [step, keys_put, ih, last, List.eraseDups_append]
    by_cases there : pair.1 ∈ keys pairs <;> simp [there, List.removeAll, single]

theorem put_of_not_mem {key : κ} {entries : Entries κ α} (value : α) (new : key ∉ entries.keys) :
    put key value entries = entries ++ [(key, value)] := by
  induction entries with
  | nil => rfl
  | cons entry rest ih =>
    obtain ⟨other, old⟩ := entry
    obtain ⟨apart, beyond⟩ : key ≠ other ∧ key ∉ keys rest := by simpa [keys] using new
    simp [put, apart.symm, ih beyond]

/-- Where all keys are different, all pairs come to stand behind the entries. -/
theorem putAll_of_nodup {pairs : List (κ × α)} {entries : Entries κ α} (apart : (keys (entries ++ pairs)).Nodup) :
    putAll pairs entries = entries ++ pairs := by
  induction pairs generalizing entries with
  | nil => exact (List.append_nil entries).symm
  | cons pair rest ih =>
    have split : entries ++ pair :: rest = entries ++ [pair] ++ rest := by simp
    have new : pair.1 ∉ entries.keys := by
      rw [keys, List.map_append, List.nodup_append] at apart
      exact fun mem => apart.2.2 _ mem _ (.head _) rfl
    have step : putAll (pair :: rest) entries = putAll rest (put pair.1 pair.2 entries) := rfl
    rw [step, put_of_not_mem _ new, split]
    exact ih (split ▸ apart)

theorem mem_of_get? {key : κ} {value : α} {entries : Entries κ α} (h : get? key entries = some value) :
    (key, value) ∈ entries := by
  obtain ⟨⟨other, present⟩, found, rfl⟩ := Option.map_eq_some_iff.1 h
  obtain rfl : other = key := by simpa using List.find?_some found
  exact List.mem_of_find?_eq_some found

/-- Where no key comes twice, what is found at the keys is all that there is. -/
theorem get?_eq_some_iff {key : κ} {value : α} {entries : Entries κ α} (apart : entries.keys.Nodup) :
    get? key entries = some value ↔ (key, value) ∈ entries := by
  refine ⟨mem_of_get?, fun mem => ?_⟩
  induction entries with
  | nil => cases mem
  | cons entry rest ih =>
    obtain ⟨other, present⟩ := entry
    obtain ⟨new, apart⟩ := List.nodup_cons.1 apart
    rw [get?_cons]
    obtain same | mem := List.mem_cons.1 mem
    · obtain ⟨rfl, rfl⟩ := Prod.mk.inj same
      simp
    · have differs : other ≠ key := by
        rintro rfl
        exact new (List.mem_map.2 ⟨_, mem, rfl⟩)
      rw [if_neg (by simpa using differs), ih apart mem]

theorem nodup_keys_putAll {entries : Entries κ α} (pairs : List (κ × α)) (apart : entries.keys.Nodup) :
    (putAll pairs entries).keys.Nodup := by
  induction pairs generalizing entries with
  | nil => exact apart
  | cons pair rest ih =>
    refine ih ?_
    rw [keys_put]
    split
    · exact apart
    · rename_i new
      refine List.nodup_append.2 ⟨apart, List.pairwise_singleton _ _, fun other mem new' mem' => ?_⟩
      rw [List.mem_singleton.1 mem']
      exact fun same => new (same ▸ mem)

/-! Putting the same pairs once more -/

theorem put_put (key : κ) (value old : α) (entries : Entries κ α) :
    put key value (put key old entries) = put key value entries := by
  induction entries with
  | nil => simp [put]
  | cons entry rest ih =>
    obtain ⟨other, present⟩ := entry
    by_cases same : other = key
    · simp [put, same]
    · simp [put, same, ih]

/-- A key that is there keeps its place, so that it does not matter when another one is put in. -/
theorem put_comm {key other : κ} {entries : Entries κ α} (apart : other ≠ key) (there : other ∈ entries.keys)
    (value old : α) : put other old (put key value entries) = put key value (put other old entries) := by
  induction entries with
  | nil => cases there
  | cons entry rest ih =>
    obtain ⟨first, present⟩ := entry
    by_cases here : first = other
    · subst here
      simp [put, apart]
    · have beyond : other ∈ keys rest := by simpa [keys, Ne.symm here] using there
      by_cases same : first = key
      · simp [put, same, apart.symm]
      · simp [put, same, here, ih beyond]

/-- What stands at a key is forgotten when the key is put in again behind pairs whose keys are there. -/
theorem put_putAll_put {pairs : List (κ × α)} {entries : Entries κ α} (there : keys pairs ⊆ entries.keys) (key : κ)
    (value old : α) : put key value (putAll pairs (put key old entries)) = put key value (putAll pairs entries) := by
  induction pairs generalizing entries with
  | nil => exact put_put key value old entries
  | cons pair rest ih =>
    obtain ⟨known, others⟩ := List.cons_subset.1 there
    have step (entries : Entries κ α) : putAll (pair :: rest) entries = putAll rest (put pair.1 pair.2 entries) := rfl
    rw [step, step]
    by_cases same : pair.1 = key
    · rw [same, put_put]
    · rw [put_comm same known]
      refine ih fun other mem => ?_
      rw [keys_put, if_pos known]
      exact others mem

/-- Putting the same pairs in again changes nothing. -/
theorem putAll_putAll (pairs : List (κ × α)) (entries : Entries κ α) :
    putAll pairs (putAll pairs entries) = putAll pairs entries := by
  induction pairs using List.reverseRecOn with
  | nil => rfl
  | append_singleton pairs pair ih =>
    have step (entries : Entries κ α) :
        putAll (pairs ++ [pair]) entries = put pair.1 pair.2 (putAll pairs entries) := by simp [putAll]
    rw [step, step, put_putAll_put fun key mem => mem_keys_putAll.2 (.inr mem), ih]

end Formulary.Entries

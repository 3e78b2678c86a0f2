import Mathlib.Data.List.Nodup
import Coupling.Table

/-!
# Theory of tables

A table is read through `get?`. Putting entries one after the other lets the last one under a key
win, so that a table updated by a list of entries is read from the end of the list.

Results:
1. `get?_update`: what an updated table holds under a key.
2. `get?_update_of_last`: an entry that no later entry replaces is found.
3. `nodup_keys_update`: no key stands twice in a table that is made by putting.
4. `mem_entries_iff`: in such a table the entries are what `get?` says.
5. `map_update`: other values may be given to tables before or after an update.
-/

namespace Coupling.Table

variable {α : Type}

/-! ## Looking up -/

theorem lookIn_append (k : String) (xs ys : List (String × α)) :
    lookIn k (xs ++ ys) = (lookIn k xs).or (lookIn k ys) := by
  induction xs with
  | nil => rfl
  | cons x xs ih =>
    obtain ⟨k', v⟩ := x
    simp only [List.cons_append, lookIn]
    split
    · rfl
    · exact ih

variable {k : String} {v : α} {es : List (String × α)} {t : Table α} {ts : List (Table α)}

theorem mem_of_lookIn (h : lookIn k es = some v) : (k, v) ∈ es := by
  induction es with
  | nil => cases h
  | cons e es ih =>
    obtain ⟨k', v'⟩ := e
    simp only [lookIn] at h
    split at h
    · next hk =>
      cases h
      rw [hk]
      exact List.mem_cons_self
    · exact List.mem_cons_of_mem _ (ih h)

theorem lookIn_eq_none_iff : lookIn k es = none ↔ k ∉ es.map (·.1) := by
  induction es with
  | nil => simp [lookIn]
  | cons e es ih =>
    obtain ⟨k', v⟩ := e
    simp only [lookIn, List.map_cons, List.mem_cons, not_or]
    split
    · next hk => simp [hk]
    · next hk => simp [hk, ih]

theorem mem_entries_of_get? (h : t.get? k = some v) :
    (k, v) ∈ t.entries :=
  mem_of_lookIn h

theorem contains_iff_mem_keys : t.contains k = true ↔ k ∈ t.keys := by
  unfold contains
  rw [Option.isSome_iff_ne_none, ne_eq, get?, lookIn_eq_none_iff, not_not]
  rfl

theorem contains_iff_exists : t.contains k = true ↔ ∃ v, t.get? k = some v := by
  unfold contains
  exact Option.isSome_iff_exists

theorem mem_values_of_get? (h : t.get? k = some v) :
    v ∈ t.values :=
  List.mem_map.mpr ⟨(k, v), mem_entries_of_get? h, rfl⟩

variable {key : String} {e : String × α} {t' : Table α} {β : Type}

@[simp] theorem contains_put : (t.put key v).contains k = (decide (k = key) || t.contains k) := by
  unfold contains
  rw [get?_put]
  split
  · next h => simp [h]
  · next h => simp [h]

/-! ## Putting many entries -/

theorem update_append (t : Table α) (xs ys : List (String × α)) :
    t.update ⟨xs ++ ys⟩ = (t.update ⟨xs⟩).update ⟨ys⟩ := by
  unfold update
  exact List.foldl_append

/-- The last entry under a key wins; a key that no entry has keeps its value. -/
theorem get?_update (t : Table α) (es : List (String × α)) (k : String) :
    (t.update ⟨es⟩).get? k = (lookIn k es.reverse).or (t.get? k) := by
  induction es generalizing t with
  | nil => rfl
  | cons e es ih =>
    obtain ⟨key, v⟩ := e
    have step : t.update ⟨(key, v) :: es⟩ = (t.put key v).update ⟨es⟩ := rfl
    rw [step, ih, get?_put, List.reverse_cons, lookIn_append, Option.or_assoc]
    congr 1
    simp only [lookIn]
    split <;> rfl

/-- An entry that no later entry replaces is found. -/
theorem get?_update_of_last {pre post : List (String × α)} (h : k ∉ post.map (·.1)) :
    (t.update ⟨pre ++ (k, v) :: post⟩).get? k = some v := by
  have hpost : lookIn k post.reverse = none := by
    rw [lookIn_eq_none_iff, List.map_reverse, List.mem_reverse]
    exact h
  rw [get?_update, List.reverse_append, List.reverse_cons, lookIn_append, lookIn_append, hpost]
  simp [lookIn]

/-- A key that is put has the value that was put then or one of those put later. -/
theorem get?_update_last (t : Table α) (pre : List (String × α)) (k : String) (v : α)
    (post : List (String × α)) :
    (t.update ⟨pre ++ ((k, v) :: post)⟩).get? k = some v ∨
      ∃ w, (k, w) ∈ post ∧ (t.update ⟨pre ++ ((k, v) :: post)⟩).get? k = some w := by
  have hself : lookIn k ((k, v) :: pre.reverse) = some v := by
    rw [lookIn, if_pos rfl]
  have hget : (t.update ⟨pre ++ ((k, v) :: post)⟩).get? k =
      (lookIn k post.reverse).or (some v) := by
    rw [get?_update, List.reverse_append, List.reverse_cons, List.append_assoc, lookIn_append]
    cases lookIn k post.reverse with
    | some w => rfl
    | none =>
      show (lookIn k ((k, v) :: pre.reverse)).or _ = _
      rw [hself]
      rfl
  rw [hget]
  cases hpost : lookIn k post.reverse with
  | none => exact .inl rfl
  | some w => exact .inr ⟨w, List.mem_reverse.mp (mem_of_lookIn hpost), rfl⟩

theorem get?_update_of_not_mem (h : k ∉ es.map (·.1)) : (t.update ⟨es⟩).get? k = t.get? k := by
  have hes : lookIn k es.reverse = none := by
    rw [lookIn_eq_none_iff, List.map_reverse, List.mem_reverse]
    exact h
  rw [get?_update, hes, Option.none_or]

/-- A key that is put has one of the values that were put under it. -/
theorem get?_update_of_mem (t : Table α) (h : k ∈ es.map (·.1)) :
    ∃ v, (k, v) ∈ es ∧ (t.update ⟨es⟩).get? k = some v := by
  rw [get?_update]
  cases hlook : lookIn k es.reverse with
  | none =>
    rw [lookIn_eq_none_iff, List.map_reverse, List.mem_reverse] at hlook
    exact absurd h hlook
  | some v => exact ⟨v, List.mem_reverse.mp (mem_of_lookIn hlook), rfl⟩

/-- What is found in an updated table was put there or was there before. -/
theorem get?_update_cases (h : (t.update ⟨es⟩).get? k = some v) :
    (k, v) ∈ es ∨ t.get? k = some v := by
  rw [get?_update, Option.or_eq_some_iff] at h
  rcases h with h | ⟨_, h⟩
  · exact .inl (List.mem_reverse.mp (mem_of_lookIn h))
  · exact .inr h

theorem contains_update : (t.update ⟨es⟩).contains k = true ↔ k ∈ es.map (·.1) ∨
    t.contains k = true := by
  constructor
  · intro h
    obtain ⟨v, hv⟩ := contains_iff_exists.mp h
    rcases get?_update_cases hv with hm | hm
    · exact .inl (List.mem_map.mpr ⟨_, hm, rfl⟩)
    · exact .inr (contains_iff_exists.mpr ⟨v, hm⟩)
  · intro h
    rw [contains, get?_update, Option.isSome_or, Bool.or_eq_true]
    rcases h with h | h
    · refine .inl (Option.isSome_iff_ne_none.mpr fun hn => ?_)
      rw [lookIn_eq_none_iff, List.map_reverse, List.mem_reverse] at hn
      exact hn h
    · exact .inr h

theorem mem_putInto (h : e ∈ putInto key v es) : e = (key, v) ∨ e ∈ es := by
  induction es with
  | nil => exact .inl (List.mem_singleton.mp h)
  | cons e' es ih =>
    obtain ⟨k, w⟩ := e'
    simp only [putInto] at h
    split at h
    · next hk =>
      rcases List.mem_cons.mp h with rfl | h
      · exact .inl (by rw [hk])
      · exact .inr (List.mem_cons_of_mem _ h)
    · rcases List.mem_cons.mp h with rfl | h
      · exact .inr List.mem_cons_self
      · exact (ih h).imp_right (List.mem_cons_of_mem _)

/-- The entries of an updated table were put there or were there before. -/
theorem mem_entries_update (h : e ∈ (t.update ⟨es⟩).entries) : e ∈ es ∨ e ∈ t.entries := by
  induction es generalizing t with
  | nil => exact .inr h
  | cons e' es ih =>
    rcases ih (t := t.put e'.1 e'.2) h with hmem | hmem
    · exact .inl (List.mem_cons_of_mem _ hmem)
    · rcases mem_putInto hmem with rfl | hold
      · exact .inl List.mem_cons_self
      · exact .inr hold

/-! ## Keys stand once -/

theorem keys_putInto (key : String) (v : α) (es : List (String × α)) :
    (putInto key v es).map (·.1) = if key ∈ es.map (·.1) then es.map (·.1)
      else es.map (·.1) ++ [key] := by
  induction es with
  | nil => simp [putInto]
  | cons e es ih =>
    obtain ⟨k, w⟩ := e
    simp only [putInto]
    split
    · next h => simp [h]
    · next h =>
      simp only [List.map_cons, ih, List.mem_cons, h, false_or]
      split <;> rfl

theorem nodup_keys_put (key : String) (v : α) (h : t.keys.Nodup) : (t.put key v).keys.Nodup := by
  unfold keys put
  rw [keys_putInto]
  split
  · exact h
  · next hk =>
    rw [List.nodup_append]
    refine ⟨h, List.nodup_singleton key, ?_⟩
    intro a ha b hb hab
    rw [List.mem_singleton] at hb
    subst hab hb
    exact hk ha

theorem nodup_keys_update (es : List (String × α)) (h : t.keys.Nodup) :
    (t.update ⟨es⟩).keys.Nodup := by
  induction es generalizing t with
  | nil => exact h
  | cons e es ih => exact ih (nodup_keys_put e.1 e.2 h)

theorem mem_entries_iff (h : t.keys.Nodup) : (k, v) ∈ t.entries ↔ t.get? k = some v := by
  refine ⟨fun hm => ?_, mem_entries_of_get?⟩
  unfold get?
  unfold keys at h
  generalize t.entries = es at h hm
  induction es with
  | nil => cases hm
  | cons e es ih =>
    obtain ⟨k', v'⟩ := e
    simp only [List.map_cons, List.nodup_cons] at h
    simp only [lookIn]
    rcases List.mem_cons.mp hm with heq | hm
    · cases heq
      rw [if_pos rfl]
    · have hk : k ≠ k' := by
        intro he
        rw [← he] at h
        exact h.1 (List.mem_map.mpr ⟨(k, v), hm, rfl⟩)
      rw [if_neg hk]
      exact ih h.2 hm

/-! ## Putting whole tables -/

theorem lookIn_reverse (h : (es.map (·.1)).Nodup) : lookIn k es.reverse = lookIn k es := by
  induction es with
  | nil => rfl
  | cons e es ih =>
    obtain ⟨key, v⟩ := e
    obtain ⟨hkey, hrest⟩ := List.nodup_cons.mp h
    rw [List.reverse_cons, lookIn_append, ih hrest]
    simp only [lookIn]
    split
    · next heq =>
      rw [heq, lookIn_eq_none_iff.mpr hkey, Option.none_or]
    · exact Option.or_none

/-- A table that is put over another hides it. -/
theorem get?_update_table (h : t'.keys.Nodup) (k : String) :
    (t.update t').get? k = (t'.get? k).or (t.get? k) := by
  rw [show t.update t' = t.update ⟨t'.entries⟩ from rfl, get?_update, lookIn_reverse h]
  rfl

theorem get?_updateAll_of_not_mem (h : ∀ u ∈ ts, u.contains k = false) :
    (ts.foldl update t).get? k = t.get? k := by
  induction ts generalizing t with
  | nil => rfl
  | cons u ts ih =>
    rw [List.foldl_cons, ih fun u' hu' => h u' (List.mem_cons_of_mem _ hu')]
    show (t.update ⟨u.entries⟩).get? k = t.get? k
    refine get?_update_of_not_mem fun hmem => ?_
    have hhas := contains_iff_mem_keys.mpr (show k ∈ u.keys from hmem)
    rw [h u List.mem_cons_self] at hhas
    cases hhas

/-- An entry of a table that no later table replaces is found. -/
theorem get?_updateAll_of_last {u : Table α} {pre post : List (Table α)} (hu : u.keys.Nodup)
    (hv : u.get? k = some v)
    (hpost : ∀ u' ∈ post, u'.contains k = false) :
    ((pre ++ u :: post).foldl update t).get? k = some v := by
  rw [List.foldl_append, List.foldl_cons, get?_updateAll_of_not_mem hpost, get?_update_table hu, hv]
  rfl

/-- What is found in a table that tables were put over was in one of them or was there before. -/
theorem contains_updateAll :
    (ts.foldl update t).contains k = (t.contains k || ts.any (·.contains k)) := by
  induction ts generalizing t with
  | nil => simp
  | cons u ts ih =>
    have hone : (t.update u).contains k = (u.contains k || t.contains k) := by
      rw [Bool.eq_iff_iff, Bool.or_eq_true, contains_iff_mem_keys (t := u)]
      exact contains_update
    rw [List.foldl_cons, ih, hone, List.any_cons, Bool.or_comm (u.contains k), Bool.or_assoc]

theorem get?_updateAll_cases (h : (ts.foldl update t).get? k = some v) :
    (∃ u ∈ ts, (k, v) ∈ u.entries) ∨ t.get? k = some v := by
  induction ts generalizing t with
  | nil => exact .inr h
  | cons u ts ih =>
    rcases ih (t := t.update u) h with ⟨u', hu', hmem⟩ | hold
    · exact .inl ⟨u', List.mem_cons_of_mem _ hu', hmem⟩
    · rcases get?_update_cases (show (t.update ⟨u.entries⟩).get? k = some v from hold)
        with hmem | hold
      · exact .inl ⟨u, List.mem_cons_self, hmem⟩
      · exact .inr hold

/-! ## Tables by their keys -/

theorem keys_update_of_contains (h : ∀ k ∈ es.map (·.1), t.contains k = true) :
    (t.update ⟨es⟩).keys = t.keys := by
  induction es generalizing t with
  | nil => rfl
  | cons e es ih =>
    obtain ⟨hhead, hrest⟩ := List.forall_mem_cons.mp h
    have hput : (t.put e.1 e.2).keys = t.keys :=
      (keys_putInto e.1 e.2 t.entries).trans (if_pos (contains_iff_mem_keys.mp hhead))
    have hnext : ∀ k ∈ es.map (·.1), (t.put e.1 e.2).contains k = true := by
      intro k hk
      rw [contains_put, hrest k hk, Bool.or_true]
    exact (ih hnext).trans hput

theorem keys_updateAll_of_contains (h : ∀ u ∈ ts, ∀ k ∈ u.keys, t.contains k = true) :
    (ts.foldl update t).keys = t.keys := by
  induction ts generalizing t with
  | nil => rfl
  | cons u ts ih =>
    obtain ⟨hhead, hrest⟩ := List.forall_mem_cons.mp h
    have hnext : ∀ u' ∈ ts, ∀ k ∈ u'.keys, (t.update u).contains k = true := by
      intro u' hu' k hk
      exact contains_update.mpr (.inr (hrest u' hu' k hk))
    exact (ih hnext).trans (keys_update_of_contains hhead)

/-- A value under a new key stands at the end. -/
theorem entries_put_of_not_contains (h : t.contains k = false) (v : α) :
    (t.put k v).entries = t.entries ++ [(k, v)] := by
  have hnew : k ∉ t.entries.map (·.1) := fun hmem => by
    rw [contains_iff_mem_keys.mpr hmem] at h
    cases h
  show putInto k v t.entries = t.entries ++ [(k, v)]
  generalize t.entries = es at hnew
  induction es with
  | nil => rfl
  | cons e es ih =>
    rw [List.map_cons, List.mem_cons, not_or] at hnew
    rw [putInto, if_neg hnew.1, ih hnew.2]
    rfl

/-- A table without double keys is known by its keys and what it holds under them. -/
theorem entries_eq_filterMap (h : t.keys.Nodup) :
    t.entries = t.keys.filterMap fun k => (t.get? k).map (k, ·) := by
  obtain ⟨es⟩ := t
  unfold keys at h ⊢
  simp only at h ⊢
  rw [List.filterMap_map]
  have hself : ∀ e ∈ es, (((⟨es⟩ : Table α).get? e.1).map (e.1, ·)) = some e := by
    intro e he
    rw [(mem_entries_iff (t := ⟨es⟩) h (k := e.1) (v := e.2)).mp he]
    rfl
  have hsome := List.filterMap_congr (f := fun e => ((⟨es⟩ : Table α).get? e.1).map (e.1, ·))
    (g := some) hself
  exact (hsome.trans List.filterMap_some).symm

theorem ext_of_keys (hnodup : t.keys.Nodup) (hkeys : t.keys = t'.keys)
    (h : ∀ k, t.get? k = t'.get? k) : t = t' := by
  have hentries : t.entries = t'.entries := by
    rw [entries_eq_filterMap hnodup, entries_eq_filterMap (hkeys ▸ hnodup), hkeys]
    exact List.filterMap_congr fun k _ => by rw [h k]
  cases t
  cases t'
  exact congrArg Table.mk hentries

theorem values_eq_filterMap (h : t.keys.Nodup) : t.values = t.keys.filterMap t.get? := by
  unfold values
  rw [entries_eq_filterMap h, List.map_filterMap]
  refine List.filterMap_congr fun k _ => ?_
  cases t.get? k <;> rfl

/-- Putting the same entries once more changes nothing. -/
theorem update_self (h : t.keys.Nodup) (es : List (String × α)) :
    (t.update ⟨es⟩).update ⟨es⟩ = t.update ⟨es⟩ := by
  have hkeys : ((t.update ⟨es⟩).update ⟨es⟩).keys = (t.update ⟨es⟩).keys :=
    keys_update_of_contains fun k hk => contains_update.mpr (.inl hk)
  refine ext_of_keys (nodup_keys_update es (nodup_keys_update es h)) hkeys fun k => ?_
  rw [get?_update, get?_update, ← Option.or_assoc, Option.or_self]

/-- Other values under the same keys hide those that were put before. -/
theorem get?_update_update (xs : List β) (name : β → String) (f g : β → α) (k : String) :
    ((t.update ⟨xs.map fun x => (name x, f x)⟩).update ⟨xs.map fun x => (name x, g x)⟩).get? k =
      (t.update ⟨xs.map fun x => (name x, g x)⟩).get? k := by
  rw [get?_update, get?_update, get?_update]
  cases hg : lookIn k (xs.map fun x => (name x, g x)).reverse with
  | some v => rfl
  | none =>
    rw [lookIn_eq_none_iff, List.map_reverse, List.mem_reverse, List.map_map] at hg
    have hf : lookIn k (xs.map fun x => (name x, f x)).reverse = none := by
      rw [lookIn_eq_none_iff, List.map_reverse, List.mem_reverse, List.map_map]
      exact hg
    rw [hf, Option.none_or, Option.none_or]

/-- Entries under new keys stand at the end, in their order. -/
theorem entries_update_of_nodup (h : (t.keys ++ es.map (·.1)).Nodup) :
    (t.update ⟨es⟩).entries = t.entries ++ es := by
  induction es generalizing t with
  | nil => exact (List.append_nil _).symm
  | cons e es ih =>
    have hnew : t.contains e.1 = false := by
      rw [Bool.eq_false_iff]
      intro hold
      exact (List.nodup_append.mp h).2.2 e.1 (contains_iff_mem_keys.mp hold) e.1
        List.mem_cons_self rfl
    have hput := entries_put_of_not_contains hnew e.2
    have hkeys : (t.put e.1 e.2).keys = t.keys ++ [e.1] := by
      unfold keys
      rw [hput, List.map_append]
      rfl
    have hrest : ((t.put e.1 e.2).keys ++ es.map (·.1)).Nodup := by
      rw [hkeys, List.append_assoc]
      exact h
    show ((t.put e.1 e.2).update ⟨es⟩).entries = _
    rw [ih hrest, hput, List.append_assoc]
    rfl

theorem entries_updateAll_of_nodup (h : (t.keys ++ ts.flatMap keys).Nodup) :
    (ts.foldl update t).entries = t.entries ++ ts.flatMap entries := by
  induction ts generalizing t with
  | nil => exact (List.append_nil _).symm
  | cons u ts ih =>
    rw [List.flatMap_cons, ← List.append_assoc] at h
    have hone : (t.update u).entries = t.entries ++ u.entries :=
      entries_update_of_nodup (List.nodup_append.mp h).1
    have hkeys : (t.update u).keys = t.keys ++ u.keys := by
      unfold keys
      rw [hone, List.map_append]
    rw [List.foldl_cons, ih (by rw [hkeys]; exact h), hone, List.append_assoc, List.flatMap_cons]

/-- Values that are put under the same new keys a second time take the places of the first. -/
theorem entries_update_update {xs : List β} {name : β → String} (h : (xs.map name).Nodup)
    (f g : β → α) :
    (((∅ : Table α).update ⟨xs.map fun x => (name x, f x)⟩).update ⟨xs.map fun x =>
      (name x, g x)⟩).entries =
      xs.map fun x => (name x, g x) := by
  have hfresh (v : β → α) : ((∅ : Table α).update ⟨xs.map fun x => (name x, v x)⟩).entries =
      xs.map fun x => (name x, v x) := by
    refine entries_update_of_nodup (t := ∅) ?_
    rw [List.map_map]
    exact h
  have hnames (v : β → α) : ((∅ : Table α).update ⟨xs.map fun x => (name x, v x)⟩).keys =
      xs.map name := by
    unfold keys
    rw [hfresh v, List.map_map]
    rfl
  have hkeys : (((∅ : Table α).update ⟨xs.map fun x => (name x, f x)⟩).update ⟨xs.map fun x =>
      (name x, g x)⟩).keys =
      xs.map name := by
    rw [keys_update_of_contains fun k hk => ?_, hnames f]
    rw [contains_iff_mem_keys, hnames f]
    rwa [List.map_map] at hk
  rw [ext_of_keys (hkeys ▸ h) (hkeys.trans (hnames g).symm) (get?_update_update xs name f g),
    hfresh g]

/-! ## Other values under the same keys -/

section Map

variable {β : Type}

/-- A table with other values under the same keys. -/
def map (f : α → β) (t : Table α) : Table β := ⟨t.entries.map fun e => (e.1, f e.2)⟩

section

variable (f : α → β)

@[simp] theorem keys_map (t : Table α) : (t.map f).keys = t.keys := by
  simp [keys, map]

@[simp] theorem values_map (t : Table α) : (t.map f).values = t.values.map f := by
  simp [values, map]

@[simp] theorem size_map (t : Table α) : (t.map f).size = t.size :=
  List.length_map _

theorem lookIn_map (key : String) (es : List (String × α)) :
    lookIn key (es.map fun e => (e.1, f e.2)) = (lookIn key es).map f := by
  induction es with
  | nil => rfl
  | cons e es ih =>
    rw [List.map_cons, lookIn, lookIn, ih]
    split <;> rfl

@[simp] theorem get?_map (t : Table α) (key : String) : (t.map f).get? key = (t.get? key).map f :=
  lookIn_map f key t.entries

@[simp] theorem contains_map (t : Table α) (key : String) :
    (t.map f).contains key = t.contains key := by
  rw [contains, get?_map, Option.isSome_map]
  rfl

end

theorem map_congr {f g : α → β} {t : Table α} (h : ∀ v ∈ t.values, f v = g v) : t.map f = t.map g :=
  congrArg Table.mk (List.map_congr_left fun e he =>
    congrArg (Prod.mk e.1) (h e.2 (List.mem_map_of_mem he)))

theorem map_map {γ : Type} (f : α → β) (g : β → γ) (t : Table α) :
    (t.map f).map g = t.map fun v => g (f v) := by
  simp [map, Function.comp_def]

theorem putInto_map (f : α → β) (key : String) (v : α) (es : List (String × α)) :
    putInto key (f v) (es.map fun e => (e.1, f e.2)) = (putInto key v es).map fun e =>
    (e.1, f e.2) := by
  induction es with
  | nil => rfl
  | cons e es ih =>
    rw [List.map_cons, putInto, putInto, ih]
    split <;> rfl

theorem map_put (f : α → β) (t : Table α) (key : String) (v : α) :
    (t.put key v).map f = (t.map f).put key (f v) :=
  congrArg Table.mk (putInto_map f key v t.entries).symm

theorem map_update (f : α → β) (t u : Table α) :
    (t.update u).map f = (t.map f).update (u.map f) := by
  obtain ⟨es⟩ := u
  induction es generalizing t with
  | nil => rfl
  | cons e es ih =>
    show ((t.put e.1 e.2).update ⟨es⟩).map f = ((t.map f).put e.1 (f e.2)).update (map f ⟨es⟩)
    rw [ih, map_put]

/-- The keys of an update are made of the keys of its tables. -/
theorem keys_update_congr {t u : Table α} {t' u' : Table β} (ht : t.keys = t'.keys)
    (hu : u.keys = u'.keys) :
    (t.update u).keys = (t'.update u').keys := by
  have hkeys {γ : Type} (t : Table γ) : t.map (fun _ => ()) = ⟨t.keys.map fun k => (k, ())⟩ := by
    simp [map, keys, Function.comp_def]
  rw [← keys_map (fun _ => ()) (t.update u), ← keys_map (fun _ => ()) (t'.update u'),
    map_update, map_update, hkeys t, hkeys t', hkeys u, hkeys u', ht, hu]

end Map

end Coupling.Table

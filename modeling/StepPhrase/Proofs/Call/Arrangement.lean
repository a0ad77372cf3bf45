import Mathlib.Data.List.Nodup
import Mathlib.Data.List.Perm.Basic
import Mathlib.Data.List.Perm.Subperm
import StepPhrase.Proofs.Call.Extraction
import StepPhrase.Proofs.Template.Alternation

/-!
# Arrangements

`arrange?` starts from the values in textual order and lets each slot send its value somewhere: to
the position it asks for, or to its own. Slots that send to one position overwrite each other.

The run over the slots is a fold that overwrites one position after another, so what a position
holds in the end is a look-up among the writes from the last one on. Whether values are lost is a
question about the targets alone: if they all differ, the writes make a permutation.

* **`arrange?_eq_some_iff`** — values are arranged when no slot sends its value too far.
* **`getElem?_sendAll`** — what the run over the slots keeps: a position holds the value that was
  sent there last, or else the one that it held at the start.
* **`nodup_targets`** — slots that ask for different positions, at none of which a slot without an
  index stands, send to different positions; `perm_sendAll` says that the values are then only
  moved.
-/

namespace StepPhrase.Call

open Template

variable {α : Type}

/-- The position that each slot sends its value to: the one that it asks for, or its own. -/
def targets (indices : List (Option Nat)) : List Nat :=
  indices.zipIdx.map fun (index, position) => index.getD position

/-- No slot without an index stands at a position that another slot asks for. Otherwise one of two
values that are sent to that position is lost. -/
def Uncontested (indices : List (Option Nat)) : Prop :=
  ∀ position : Nat, indices[position]? = some none → some position ∉ indices

/-- Where a slot asks for a position, its value is there. Of slots that ask for the same position
only one can have its way. -/
def Placed (indices : List (Option Nat)) (values arranged : List α) : Prop :=
  ∀ position k : Nat, indices[position]? = some (some k) → arranged[k]? = values[position]?

/-! ## Targets

The target of a slot is the number that it asks for, or else its own place. Two slots can share a
target in two ways: both ask for it, or one asks for the place of the other. -/

theorem getElem?_targets (indices : List (Option Nat)) (position : Nat) :
    (targets indices)[position]? = indices[position]?.map (·.getD position) := by
  rw [targets, List.getElem?_map, List.getElem?_zipIdx, Option.map_map]
  simp [Function.comp_def]

theorem getElem?_targets_eq_some_iff {indices : List (Option Nat)} {position k : Nat} :
    (targets indices)[position]? = some k ↔
      indices[position]? = some (some k) ∨ indices[position]? = some none ∧ position = k := by
  rw [getElem?_targets]
  cases indices[position]? with
  | none => simp
  | some index => cases index <;> simp

@[simp] theorem length_targets (indices : List (Option Nat)) :
    (targets indices).length = indices.length := by
  simp [targets]

theorem mem_explicit_iff {indices : List (Option Nat)} {k : Nat} :
    k ∈ indices.filterMap id ↔ some k ∈ indices := by
  simp [List.mem_filterMap]

/-- Among distinct explicit indices each is asked for once. By induction on the slots: the first one
asks for a number that none of the others asks for. -/
theorem eq_of_nodup_explicit {indices : List (Option Nat)} (h : (indices.filterMap id).Nodup)
    {i j k : Nat} (hi : indices[i]? = some (some k))
    (hj : indices[j]? = some (some k)) : i = j := by
  induction indices generalizing i j with
  | nil => simp at hi
  | cons index indices ih =>
    have htail : (indices.filterMap id).Nodup :=
      h.sublist ((List.sublist_cons_self _ _).filterMap id)
    have hhead : ∀ m : Nat, index = some k → indices[m]? ≠ some (some k) := by
      rintro m rfl hm
      rw [List.filterMap_cons, id, List.nodup_cons] at h
      exact h.1 (mem_explicit_iff.mpr (List.mem_of_getElem? hm))
    cases i with
    | zero =>
      cases j with
      | zero => rfl
      | succ j => exact absurd hj (hhead j (Option.some.inj hi))
    | succ i =>
      cases j with
      | zero => exact absurd hi (hhead i (Option.some.inj hj))
      | succ j => rw [ih htail hi hj]

/-- Slots that ask for different positions, and only for free ones, send to different positions. A
position is free if no slot without an index stands there. -/
theorem nodup_targets {indices : List (Option Nat)} (hdistinct : (indices.filterMap id).Nodup)
    (huncontested : Uncontested indices) : (targets indices).Nodup := by
  rw [List.nodup_iff_getElem?_ne_getElem?]
  intro i j hlt hj heq
  obtain ⟨k, hk⟩ : ∃ k, (targets indices)[j]? = some k := ⟨_, List.getElem?_eq_getElem hj⟩
  rw [hk] at heq
  -- of two slots with the same target both ask for it, or one of them stands there
  rcases getElem?_targets_eq_some_iff.mp heq with hi | ⟨hi, rfl⟩
  · rcases getElem?_targets_eq_some_iff.mp hk with hj | ⟨hj, rfl⟩
    · -- both ask for it
      exact absurd (eq_of_nodup_explicit hdistinct hi hj) (Nat.ne_of_lt hlt)
    · exact huncontested j hj (List.mem_of_getElem? hi)
  · rcases getElem?_targets_eq_some_iff.mp hk with hj | ⟨-, rfl⟩
    · exact huncontested i hi (List.mem_of_getElem? hj)
    · exact Nat.lt_irrefl j hlt

/-! ## Sending values

A value can be sent to any position that is there. No send changes how many positions there are, so
whether all of them succeed can be told from the targets before the first one is made. -/

/-- A value is sent to a position, which has to be there. What has been at the position before is
gone then. -/
def send? (arranged : List α) (write : Nat × α) : Option (List α) :=
  if write.1 < arranged.length then some (arranged.set write.1 write.2) else none

/-- Values are sent to positions one after another, so of two that go to the same position the later
stays. -/
def sendAll (writes : List (Nat × α)) (l : List α) : List α :=
  writes.foldl (fun arranged write => arranged.set write.1 write.2) l

/-- What each slot sends, and where to. -/
def sent (indices : List (Option Nat)) (values : List α) : List (Nat × α) :=
  (targets indices).zip values

@[simp] theorem length_sendAll (writes : List (Nat × α)) (l : List α) :
    (sendAll writes l).length = l.length := by
  induction writes generalizing l with
  | nil => rfl
  | cons write writes ih =>
    have hrest := ih (l.set write.1 write.2)
    simpa [sendAll] using hrest

theorem foldlM_send?_eq_some_iff {writes : List (Nat × α)} {l arranged : List α} :
    writes.foldlM send? l = some arranged ↔
      (∀ write ∈ writes, write.1 < l.length) ∧ arranged = sendAll writes l := by
  induction writes generalizing l with
  | nil => simp [sendAll, eq_comm]
  | cons write writes ih =>
    rw [List.foldlM_cons, List.forall_mem_cons, send?]
    by_cases hlt : write.1 < l.length
    · -- a send keeps the length, so the other targets are judged as before
      have hrest := ih (l := l.set write.1 write.2)
      rw [List.length_set] at hrest
      rw [if_pos hlt]
      simpa [hlt, sendAll] using hrest
    · simp [hlt]

/-- **What the run over the slots keeps.** A position holds the value that was sent there last, or
else the one that it held at the start. -/
theorem getElem?_sendAll (writes : List (Nat × α)) {l : List α} {p : Nat} (hp : p < l.length) :
    (sendAll writes l)[p]? = (writes.reverse.lookup p).or l[p]? := by
  induction writes generalizing l with
  | nil => rfl
  | cons write writes ih =>
    -- the first write is the last that the look-up comes to, so any later one hides it
    have hrest := ih (l := l.set write.1 write.2) (by simpa using hp)
    rw [List.reverse_cons, List.lookup_append, Option.or_assoc]
    rw [sendAll] at hrest ⊢
    rw [List.foldl_cons, hrest]
    obtain ⟨k, v⟩ := write
    by_cases heq : k = p
    · subst heq
      rw [List.getElem?_set_self hp, List.lookup_cons_self, Option.some_or]
    · have hne : (p == k) = false := beq_eq_false_iff_ne.mpr (Ne.symm heq)
      rw [List.getElem?_set_ne heq, List.lookup_cons, hne, List.lookup_nil, Option.none_or]

/-- Numbering the slots before or after they get their values is the same. -/
theorem zip_map_zipIdx (indices : List (Option Nat)) (values : List α) (start : Nat) :
    ((indices.zipIdx start).map fun (index, position) => index.getD position).zip values =
      ((indices.zip values).zipIdx start).map fun ((index, value), position) =>
        (index.getD position, value) := by
  induction indices generalizing values start with
  | nil => rfl
  | cons index indices ih =>
    cases values with
    | nil => rfl
    | cons value values =>
      have hrest := ih values (start + 1)
      rw [List.zipIdx_cons, List.map_cons, List.zip_cons_cons, hrest]
      rfl

theorem map_fst_sent {indices : List (Option Nat)} {values : List α}
    (hlength : indices.length = values.length) :
    (sent indices values).map Prod.fst = targets indices :=
  List.map_fst_zip (Nat.le_of_eq ((length_targets indices).trans hlength))

theorem map_snd_sent {indices : List (Option Nat)} {values : List α}
    (hlength : indices.length = values.length) : (sent indices values).map Prod.snd = values :=
  List.map_snd_zip (Nat.le_of_eq (hlength.symm.trans (length_targets indices).symm))

theorem arrange?_eq_foldlM (indices : List (Option Nat)) (values : List α) :
    arrange? indices values = (sent indices values).foldlM send? values := by
  rw [sent, targets, zip_map_zipIdx, List.foldlM_map]
  rfl

/-- Values are arranged without a look at them: where they go is a matter of the indices. So they
may be changed before or after they are arranged. -/
theorem arrange?_map {β : Type} (f : α → β) (indices : List (Option Nat)) (values : List α) :
    arrange? indices (values.map f) = (arrange? indices values).map (·.map f) := by
  -- a single send has this property, and then the whole run has it
  have hsend : ∀ (l : List α) (write : Nat × α),
      send? (l.map f) (Prod.map id f write) = (send? l write).map (·.map f) := by
    intro l write
    simp only [send?, Prod.map, id_eq, List.length_map, ← List.map_set]
    split <;> rfl
  have hwrites : ∀ (writes : List (Nat × α)) (l : List α),
      (writes.map (Prod.map id f)).foldlM send? (l.map f) =
        (writes.foldlM send? l).map (·.map f) := by
    intro writes
    induction writes with
    | nil => intro l; rfl
    | cons write writes ih =>
      intro l
      rw [List.map_cons, List.foldlM_cons, List.foldlM_cons, hsend]
      cases send? l write with
      | none => rfl
      | some next => exact ih next
  rw [arrange?_eq_foldlM, arrange?_eq_foldlM, sent, List.zip_map_right]
  exact hwrites _ values

theorem arrange?_eq_some_iff {indices : List (Option Nat)} {values arranged : List α}
    (hlength : indices.length = values.length) :
    arrange? indices values = some arranged ↔
      (∀ target ∈ targets indices, target < values.length)
        ∧ arranged = sendAll (sent indices values) values := by
  rw [arrange?_eq_foldlM, foldlM_send?_eq_some_iff, ← map_fst_sent hlength, List.forall_mem_map]

/-! ## Values that are only moved

If no two writes go to one position, later writes do not hide earlier ones. With as many writes as
positions, each position gets exactly one value. -/

/-- Where all positions differ, a value that is sent stays where it was sent: the look-up from the
end comes to this write, since none behind it has the same position. -/
theorem getElem?_sendAll_of_mem {writes : List (Nat × α)} {l : List α} {k : Nat} {v : α}
    (hnodup : (writes.map Prod.fst).Nodup) (hmem : (k, v) ∈ writes) (hk : k < l.length) :
    (sendAll writes l)[k]? = some v := by
  have hlookup : writes.reverse.lookup k = some v := by
    obtain ⟨before, after, rfl⟩ := List.append_of_mem hmem
    rw [List.map_append, List.map_cons] at hnodup
    rw [List.lookup_eq_some_iff]
    refine ⟨after.reverse, before.reverse, by simp, fun write hwrite => ?_⟩
    rw [List.mem_reverse] at hwrite
    have hnot := (List.nodup_cons.mp (List.nodup_append.mp hnodup).2.1).1
    rw [bne_iff_ne]
    intro heq
    exact hnot (List.mem_map.mpr ⟨write, hwrite, heq.symm⟩)
  rw [getElem?_sendAll writes hk, hlookup, Option.some_or]

/-- **No value is lost and none is doubled** where all positions differ and each gets a value. As
many positions as there are values, each with one of its own, leave no value over. -/
theorem perm_sendAll {writes : List (Nat × α)} {l : List α} (hnodup : (writes.map Prod.fst).Nodup)
    (hlength : writes.length = l.length) (hlt : ∀ write ∈ writes, write.1 < l.length) :
    (sendAll writes l).Perm (writes.map Prod.snd) := by
  -- distinct positions below the length, as many as there are, are all of them
  have hpositions : (writes.map Prod.fst).Perm (List.range l.length) := by
    have hsub : writes.map Prod.fst ⊆ List.range l.length := by
      intro k hk
      obtain ⟨write, hwrite, rfl⟩ := List.mem_map.mp hk
      exact List.mem_range.mpr (hlt write hwrite)
    refine (List.subperm_of_subset hnodup hsub).perm_of_length_le ?_
    rw [List.length_range, List.length_map]
    exact Nat.le_of_eq hlength.symm
  -- reading the result at all positions, in either order, gives the same values
  have hread : (List.range l.length).map (fun p : Nat => (sendAll writes l)[p]?) =
      (sendAll writes l).map some := by
    exact List.ext_getElem (by simp) fun p _ _ => by simp
  have hsent : (writes.map Prod.fst).map (fun p : Nat => (sendAll writes l)[p]?) =
      (writes.map Prod.snd).map some := by
    rw [List.map_map, List.map_map]
    refine List.map_congr_left fun write hwrite => ?_
    exact getElem?_sendAll_of_mem hnodup hwrite (hlt write hwrite)
  have hperm := hpositions.symm.map fun p : Nat => (sendAll writes l)[p]?
  rw [hread, hsent] at hperm
  exact (List.map_perm_map_iff fun _ _ => Option.some.inj).mp hperm

/-! ## Arranging values

The values start in textual order, and each is sent once. Slots with different targets permute them;
and if distinct values come out permuted, with each explicit index obeyed, then no slot was in the
way of another. -/

section Arrange

variable {indices : List (Option Nat)} {values arranged : List α}

theorem lt_of_mem_targets (hlength : indices.length = values.length)
    (hbelow : ∀ k, some k ∈ indices → k < values.length) :
    ∀ target ∈ targets indices, target < values.length := by
  intro target hmem
  obtain ⟨position, hposition⟩ := List.mem_iff_getElem?.mp hmem
  rcases getElem?_targets_eq_some_iff.mp hposition with hindex | ⟨hindex, rfl⟩
  · exact hbelow target (List.mem_of_getElem? hindex)
  · rw [← hlength]
    exact (List.getElem?_eq_some_iff.mp hindex).1

/-- Slots that keep out of each other's way only move the values. -/
theorem perm_of_arrange? (hlength : indices.length = values.length)
    (hnodup : (targets indices).Nodup) (h : arrange? indices values = some arranged) :
    arranged.Perm values ∧ Placed indices values arranged := by
  obtain ⟨hlt, rfl⟩ := (arrange?_eq_some_iff hlength).mp h
  have htargets := map_fst_sent hlength
  have hvalues := map_snd_sent hlength
  have hsentLength : (sent indices values).length = values.length := by
    rw [← List.length_map (f := Prod.snd), hvalues]
  have hsentLt : ∀ write ∈ sent indices values, write.1 < values.length := by
    intro write hwrite
    exact hlt write.1 (htargets ▸ List.mem_map_of_mem hwrite)
  rw [← htargets] at hnodup
  refine ⟨?_, fun position k hindex => ?_⟩
  · -- as many writes as values, and all to different positions
    have hperm := perm_sendAll hnodup hsentLength hsentLt
    rwa [hvalues] at hperm
  · have hposition : position < values.length := by
      rw [← hlength]
      exact (List.getElem?_eq_some_iff.mp hindex).1
    -- the slot at this position sends its value to the index that it asks for
    have hsent : (sent indices values)[position]? = some (k, values[position]) :=
      List.getElem?_zip_eq_some.mpr
        ⟨getElem?_targets_eq_some_iff.mpr (Or.inl hindex), List.getElem?_eq_getElem hposition⟩
    have hmem := List.mem_of_getElem? hsent
    rw [getElem?_sendAll_of_mem hnodup hmem (hsentLt _ hmem), List.getElem?_eq_getElem hposition]

/-- What a position holds was sent there by some slot, or has been there all along and belongs to
the slot at the position itself. -/
theorem exists_sender {i : Nat} {v : α} (h : (sendAll (sent indices values) values)[i]? = some v) :
    ∃ position : Nat, values[position]? = some v
      ∧ ((targets indices)[position]? = some i ∨ position = i) := by
  have hi : i < values.length := by
    have hbound := (List.getElem?_eq_some_iff.mp h).1
    rwa [length_sendAll] at hbound
  rw [getElem?_sendAll _ hi] at h
  rcases Option.or_eq_some_iff.mp h with hlookup | ⟨-, hown⟩
  · -- it was sent, so it is a write, and the write belongs to some slot
    obtain ⟨before, behind, heq, -⟩ := List.lookup_eq_some_iff.mp hlookup
    have hmem : (i, v) ∈ sent indices values := by
      rw [← List.mem_reverse, heq]
      simp
    obtain ⟨position, hposition⟩ := List.mem_iff_getElem?.mp hmem
    obtain ⟨htarget, hvalue⟩ := List.getElem?_zip_eq_some.mp hposition
    exact ⟨position, hvalue, Or.inl htarget⟩
  · exact ⟨i, hown, Or.inr rfl⟩

/-- Distinct values are only moved, and moved to where they are asked for, if no slot without an
index stands in the way. -/
theorem uncontested_of_perm (hlength : indices.length = values.length)
    (h : arrange? indices values = some arranged) (hvalues : values.Nodup)
    (hperm : arranged.Perm values) (hplaced : Placed indices values arranged) :
    Uncontested indices := by
  intro p hnone hasked
  obtain ⟨q, hq⟩ := List.mem_iff_getElem?.mp hasked
  have hp : p < values.length := by
    rw [← hlength]
    exact (List.getElem?_eq_some_iff.mp hnone).1
  -- as the values are distinct, each tells its place
  have hsame : ∀ {i : Nat}, values[i]? = some values[p] → i = p := by
    intro i hi
    rw [← List.getElem?_eq_getElem hp] at hi
    exact ((List.getElem?_inj hp hvalues).mp hi.symm).symm
  -- the value of the slot without an index has to be somewhere, and it can only be at `p`
  have hthere : arranged[p]? = some values[p] := by
    obtain ⟨-, rfl⟩ := (arrange?_eq_some_iff hlength).mp h
    obtain ⟨i, hi⟩ := List.mem_iff_getElem?.mp (hperm.mem_iff.mpr (List.getElem_mem hp))
    obtain ⟨position, hvalue, hsender⟩ := exists_sender hi
    obtain rfl := hsame hvalue
    rw [getElem?_targets, hnone] at hsender
    rcases hsender with htarget | rfl
    · rwa [← Option.some.inj htarget] at hi
    · exact hi
  -- but there the slot that asks for `p` has its value
  rw [hplaced q p hq] at hthere
  rw [hsame hthere, hnone] at hq
  cases hq

end Arrange

/-! ## Arguments

Arguments are arranged raw arguments. There are as many indices as raw arguments, because extraction
takes one token for each slot. -/

theorem length_of_rawArguments? {template : Template} {t : Text} {raw : List Argument}
    (h : rawArguments? template t = some raw) : raw.length = template.slots.length := by
  obtain ⟨values, rfl, hextracts⟩ := rawArguments?_eq_some_iff.mp h
  rw [List.length_map, hextracts.length_eq, length_frames]

theorem length_indices {template : Template} {t : Text} {raw : List Argument}
    (hraw : rawArguments? template t = some raw) :
    (template.slots.map Slot.index).length = (raw.map Argument.unquoted).length := by
  rw [List.length_map, List.length_map, length_of_rawArguments? hraw]

theorem length_of_arguments? {template : Template} {t : Text} {arguments : List Argument}
    (h : arguments? template t = some arguments) : arguments.length = template.slots.length := by
  obtain ⟨raw, hraw, harrange⟩ := Option.bind_eq_some_iff.mp h
  have hlength := length_indices hraw
  obtain ⟨-, rfl⟩ := (arrange?_eq_some_iff hlength).mp harrange
  rw [length_sendAll, ← hlength, List.length_map]

theorem lt_of_mem_targets_slots {template : Template} {t : Text} {raw : List Argument}
    (hraw : rawArguments? template t = some raw)
    (hbelow : ∀ k ∈ template.slots.filterMap Slot.index, k < template.slots.length) :
    ∀ target ∈ targets (template.slots.map Slot.index),
      target < (raw.map Argument.unquoted).length := by
  have hlength := length_indices hraw
  refine lt_of_mem_targets hlength fun k hk => ?_
  obtain ⟨s, hs, hindex⟩ := List.mem_map.mp hk
  rw [← hlength, List.length_map]
  exact hbelow k (List.mem_filterMap.mpr ⟨s, hs, hindex⟩)

/-- Then the arguments are found when the raw ones are, for an index that is too high is the only
thing that could keep them from being put in order. -/
theorem exists_arguments?_iff {template : Template} {t : Text}
    (hbelow : ∀ k ∈ template.slots.filterMap Slot.index, k < template.slots.length) :
    (∃ arguments, arguments? template t = some arguments) ↔
      ∃ raw, rawArguments? template t = some raw := by
  constructor
  · rintro ⟨arguments, h⟩
    obtain ⟨raw, hraw, -⟩ := Option.bind_eq_some_iff.mp h
    exact ⟨raw, hraw⟩
  · rintro ⟨raw, hraw⟩
    have hlt := lt_of_mem_targets_slots hraw hbelow
    have harrange := (arrange?_eq_some_iff (length_indices hraw)).mpr ⟨hlt, rfl⟩
    exact ⟨_, by rw [arguments?, hraw, Option.bind_some, harrange]⟩

/-- **The arguments are the raw arguments in another order** for slots that ask for different
positions, unless one without an index stands at a position that is asked for. Then the later of the
two stays, and of values that can be told apart one gets lost or out of place. -/
theorem exists_arguments?_perm {template : Template} {t : Text} {raw : List Argument}
    (hraw : rawArguments? template t = some raw)
    (hdistinct : (template.slots.filterMap Slot.index).Nodup)
    (hbelow : ∀ k ∈ template.slots.filterMap Slot.index, k < template.slots.length) :
    ∃ arguments, arguments? template t = some arguments
      ∧ arguments.length = template.slots.length
      ∧ (∀ p : Nat, p < template.slots.length → arguments[p]? =
          ((sent (template.slots.map Slot.index) (raw.map Argument.unquoted)).reverse.lookup p).or
            (raw.map Argument.unquoted)[p]?)
      ∧ (Uncontested (template.slots.map Slot.index) →
          arguments.Perm (raw.map Argument.unquoted)
            ∧ Placed (template.slots.map Slot.index) (raw.map Argument.unquoted) arguments)
      ∧ ((raw.map Argument.unquoted).Nodup → arguments.Perm (raw.map Argument.unquoted) →
          Placed (template.slots.map Slot.index) (raw.map Argument.unquoted) arguments →
          Uncontested (template.slots.map Slot.index)) := by
  have hlength := length_indices hraw
  have hlt := lt_of_mem_targets_slots hraw hbelow
  have harrange := (arrange?_eq_some_iff hlength).mpr ⟨hlt, rfl⟩
  have harguments : arguments? template t =
      some (sendAll (sent (template.slots.map Slot.index) (raw.map Argument.unquoted))
        (raw.map Argument.unquoted)) := by
    rw [arguments?, hraw, Option.bind_some, harrange]
  refine ⟨_, harguments, length_of_arguments? harguments, fun p hp => ?_, fun huncontested => ?_,
    uncontested_of_perm hlength harrange⟩
  · rw [List.length_map] at hlength
    exact getElem?_sendAll _ (hlength ▸ hp)
  · -- the indices of the slots and the indices that are given are the same ones, once as options
    have hexplicit : ((template.slots.map Slot.index).filterMap id).Nodup := by
      rwa [List.filterMap_map]
    exact perm_of_arrange? hlength (nodup_targets hexplicit huncontested) harrange

/-- Two slots that send their values across: each asks for the position of the other, so the
arguments are the values in the opposite order. -/
theorem exists_arguments?_perm_crossed :
    ∃ template raw arguments, ofText? .unlimited "copy {1} from {0}".toList = .ok template
      ∧ rawArguments? template "copy 'b' from 'a'".toList = some raw
      ∧ arguments? template "copy 'b' from 'a'".toList = some arguments
      ∧ arguments.Perm (raw.map Argument.unquoted)
      ∧ Placed (template.slots.map Slot.index) (raw.map Argument.unquoted) arguments := by
  have hraw : rawArguments?
      ⟨"copy {1} from {0}".toList, [.literal "copy ".toList, .slot ⟨"{1}".toList, 5, some 1⟩,
        .literal " from ".toList, .slot ⟨"{0}".toList, 14, some 0⟩]⟩
      "copy 'b' from 'a'".toList = some [.ofToken "'b'".toList, .ofToken "'a'".toList] := by
    decide +kernel
  obtain ⟨arguments, harguments, -, -, hmoved, -⟩ :=
    exists_arguments?_perm hraw (by decide) (by decide)
  refine ⟨_, _, arguments, by decide +kernel, hraw, harguments, hmoved fun position hnone => ?_⟩
  exact absurd (List.mem_of_getElem? hnone) (by decide)

/-- A slot without an index in front of one that asks for its position loses its value, and the
value of the other is there twice. -/
theorem exists_arguments?_not_perm :
    ∃ template raw arguments, ofText? .unlimited "{b} {0}".toList = .ok template
      ∧ rawArguments? template "1 2".toList = some raw
      ∧ (template.slots.filterMap Slot.index).Nodup
      ∧ (∀ k ∈ template.slots.filterMap Slot.index, k < template.slots.length)
      ∧ arguments? template "1 2".toList = some arguments
      ∧ ¬arguments.Perm (raw.map Argument.unquoted) := by
  refine ⟨⟨"{b} {0}".toList, [.slot ⟨"{b}".toList, 0, none⟩, .literal [' '],
    .slot ⟨"{0}".toList, 4, some 0⟩]⟩, [.ofToken ['1'], .ofToken ['2']],
    [.ofToken ['2'], .ofToken ['2']], ?_⟩
  decide +kernel

end StepPhrase.Call

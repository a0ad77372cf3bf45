import StepPhrase.Proofs.Call.Matching
import StepPhrase.Proofs.Template.Layout

/-!
# The positions of arguments

Where the value of each slot ends up, read backwards: whose value stands at a position in the end.
It is that of the last slot in the text that sends its value there, and where none does it is that
of the slot which stands there. A position is asked for by the number that the text in the braces
begins with. Numbers that do not fit into a machine word ask for nothing, so that a slot with such a
number keeps its own position.

Values are sent to positions in the order of the slots, and a value that is sent later replaces one
that was sent earlier. So the final arguments are described by one slot for each position, its
source, and not by the order in which they came about.

* **`getElem?_sendAll_of_last`**, **`getElem?_sendAll_of_unsent`** — the last value sent to a
  position stays.
* **`arrange?_eq_none_iff`**, **`arrange?_of_unindexed`** — values that cannot be arranged, and
  those that need not be.
* **`arguments?_of_source`** — whose value stands at each position of the arguments.
* **`arguments?_of_high_number`** — the numbers that make a template unusable.
-/

namespace StepPhrase

namespace Template

variable {engine : Engine} {s : Slot} {inside : Text} {n : Nat}

/-! ## Numbers in braces

A number is read from as many digits as there are in front, and the text behind them is a name for
the reader only. Whether the number is an index is a question of its size. -/

/-- The text in the braces begins with a number: `n`, in as many digits as there are. -/
def Slot.IsNumbered (s : Slot) (n : Nat) : Prop :=
  ∃ digits rest, s.token = '{' :: (digits ++ rest) ∧ digits ≠ [] ∧ (∀ c ∈ digits, c.isDigit = true)
    ∧ (∀ c ∈ rest.head?, c.isDigit = false) ∧ Nat.ofDigitChars 10 digits 0 = n

theorem Slot.indexOf_eq_some_iff :
    Slot.indexOf inside = some n ↔ inside.takeWhile Char.isDigit ≠ []
      ∧ Nat.ofDigitChars 10 (inside.takeWhile Char.isDigit) 0 = n ∧ n < Slot.indexBound := by
  unfold Slot.indexOf
  split
  · next hnone => simp [hnone]
  · next digits hne =>
    -- there are digits, and whether they count is whether their number is a machine word
    rw [Option.ite_none_right_eq_some, Option.some_inj]
    constructor
    · rintro ⟨hlt, rfl⟩
      exact ⟨hne, rfl, hlt⟩
    · rintro ⟨-, rfl, hlt⟩
      exact ⟨hlt, rfl⟩

theorem Slot.isNumbered_ofInside_iff {start : Nat} :
    (Slot.ofInside start inside).IsNumbered n ↔ inside.takeWhile Char.isDigit ≠ []
      ∧ Nat.ofDigitChars 10 (inside.takeWhile Char.isDigit) 0 = n := by
  constructor
  · rintro ⟨digits, rest, htoken, hne, hdigits, hrest, hn⟩
    have hinside : inside ++ ['}'] = digits ++ rest := (List.cons.inj htoken).2
    have hstops : rest.takeWhile Char.isDigit = [] := by
      cases rest with
      | nil => rfl
      | cons c rest => simp [hrest c rfl]
    -- the closing brace is no digit, so the digits end in front of it
    have htake : (inside ++ ['}']).takeWhile Char.isDigit = inside.takeWhile Char.isDigit := by
      rw [List.takeWhile_append]
      split
      · next hall =>
        have hend : ['}'].takeWhile Char.isDigit = [] := by decide
        rw [hend, List.append_nil, (List.takeWhile_prefix Char.isDigit).eq_of_length hall]
      · rfl
    rw [← htake, hinside, List.takeWhile_append_of_pos hdigits, hstops, List.append_nil]
    exact ⟨hne, hn⟩
  · rintro ⟨hne, hn⟩
    refine ⟨_, inside.dropWhile Char.isDigit ++ ['}'], ?_, hne, ?_, ?_, hn⟩
    · rw [← List.append_assoc, List.takeWhile_append_dropWhile]
      rfl
    · exact List.all_eq_true.mp List.all_takeWhile
    · have hfirst := List.head?_dropWhile_not Char.isDigit inside
      cases hrest : inside.dropWhile Char.isDigit with
      | nil => simp
      | cons c rest => simpa [hrest] using hfirst

/-- **A slot asks for the number that the text in its braces begins with**, if that is a machine
word. -/
theorem index_eq_some_iff {definition : Text} {template : Template}
    (hparsed : ofText? engine definition = .ok template)
    (hs : s ∈ template.slots) : s.index = some n ↔ s.IsNumbered n ∧ n < Slot.indexBound := by
  obtain ⟨items, -, hpieces⟩ := exists_items_of_ofText? hparsed
  rw [slots, hpieces] at hs
  obtain ⟨_, inside, _, -, rfl⟩ := (layout_ofItems 0 items).exists_eq_append hs
  rw [Slot.isNumbered_ofInside_iff, and_assoc]
  exact Slot.indexOf_eq_some_iff

end Template

namespace Call

open Template

variable {α : Type} {indices : List (Option Nat)} {i j : Nat}

/-- The slot at `i` sends its value to position `j`, and no later slot does, so its value is the one
that stays there. -/
def IsLastSender (indices : List (Option Nat)) (i j : Nat) : Prop :=
  (targets indices)[i]? = some j ∧ ∀ later : Nat, i < later → (targets indices)[later]? ≠ some j

/-- The slot at `i` is the one whose value position `j` has in the end: the last one that sends its
value there, or the one that stands there if none does. -/
def IsSource (indices : List (Option Nat)) (i j : Nat) : Prop :=
  IsLastSender indices i j ∨ j ∉ targets indices ∧ i = j

/-! ## Sources

A position has its source by the list of indices alone, before any value is known. There is one and
only one, so values that come from their sources are determined. -/

/-- What is in a list has a last place in it. -/
theorem exists_last_getElem? {l : List Nat} (h : j ∈ l) :
    ∃ i : Nat, l[i]? = some j ∧ ∀ later : Nat, i < later → l[later]? ≠ some j := by
  -- the last place in the list is the first one in its reverse
  obtain ⟨after, before, hsplit, hafter⟩ := List.eq_append_cons_of_mem (List.mem_reverse.mpr h)
  have hl : l = before.reverse ++ j :: after.reverse := by
    rw [← List.reverse_reverse l, hsplit]
    simp
  refine ⟨before.reverse.length, by simp [hl], fun later hlater hget => ?_⟩
  obtain ⟨further, rfl⟩ := Nat.exists_eq_add_of_lt hlater
  rw [hl, Nat.add_assoc, List.getElem?_append_right (Nat.le_add_right _ _), Nat.add_sub_cancel_left,
    List.getElem?_cons_succ] at hget
  exact hafter (List.mem_reverse.mp (List.mem_of_getElem? hget))

/-- **Each position has a source**, -/
theorem exists_isSource (indices : List (Option Nat)) (j : Nat) : ∃ i, IsSource indices i j := by
  by_cases h : j ∈ targets indices
  · obtain ⟨i, hi, hlast⟩ := exists_last_getElem? h
    exact ⟨i, .inl ⟨hi, hlast⟩⟩
  · exact ⟨j, .inr ⟨h, rfl⟩⟩

/-- and only one. -/
theorem IsSource.eq {i' : Nat} (h : IsSource indices i j)
    (h' : IsSource indices i' j) : i = i' := by
  rcases h with ⟨hi, hlast⟩ | ⟨hunsent, rfl⟩
  · rcases h' with ⟨hi', hlast'⟩ | ⟨hunsent, -⟩
    · -- the earlier of two last senders would not be the last
      rcases Nat.lt_trichotomy i i' with hlt | heq | hgt
      · exact absurd hi' (hlast i' hlt)
      · exact heq
      · exact absurd hi (hlast' i hgt)
    · exact absurd (List.mem_of_getElem? hi) hunsent
  · rcases h' with ⟨hi', -⟩ | ⟨-, heq⟩
    · exact absurd (List.mem_of_getElem? hi') hunsent
    · exact heq.symm

/-- A slot that asks for no position is the source of its own, if no slot asks for one. -/
theorem isSource_self (hindex : ∀ index ∈ indices, index = none) (j : Nat) :
    IsSource indices j j := by
  -- every slot sends its value to its own position
  have htarget : ∀ i k : Nat, (targets indices)[i]? = some k → i = k := by
    intro i k h
    rcases getElem?_targets_eq_some_iff.mp h with hasked | ⟨-, heq⟩
    · cases hindex _ (List.mem_of_getElem? hasked)
    · exact heq
  obtain ⟨i, hsource⟩ := exists_isSource indices j
  rcases id hsource with ⟨hi, -⟩ | ⟨-, heq⟩
  · rwa [htarget i j hi] at hsource
  · rwa [heq] at hsource

/-! ## What stays at a position

The run over the writes keeps the last one for each position. The writes are the targets of the
slots paired with their values, so what is said of writes carries over to slots. -/

section Sending

variable {writes : List (Nat × α)} {l : List α} {v : α}

/-- **The last value sent to a position stays there**, whatever has been sent to it before and is
sent elsewhere later. -/
theorem getElem?_sendAll_of_last (hj : j < l.length) (hi : writes[i]? = some (j, v))
    (hlast : ∀ later : Nat, i < later → (writes.map Prod.fst)[later]? ≠ some j) :
    (sendAll writes l)[j]? = some v := by
  obtain ⟨hlt, hget⟩ := List.getElem?_eq_some_iff.mp hi
  have hsplit : writes = writes.take i ++ (j, v) :: writes.drop (i + 1) := by
    rw [← hget, List.getElem_cons_drop, List.take_append_drop]
  have hreverse := congrArg List.reverse hsplit
  rw [List.reverse_append, List.reverse_cons, List.append_assoc, List.singleton_append] at hreverse
  -- from the end, no write to `j` comes before this one
  have hlookup : writes.reverse.lookup j = some v := by
    refine List.lookup_eq_some_iff.mpr ⟨_, _, hreverse, fun write hwrite => ?_⟩
    obtain ⟨k, hk⟩ := List.mem_iff_getElem?.mp (List.mem_reverse.mp hwrite)
    rw [List.getElem?_drop] at hk
    rw [bne_iff_ne]
    intro heq
    refine hlast (i + 1 + k) (by omega) ?_
    rw [List.getElem?_map, hk, Option.map_some, heq]
  rw [getElem?_sendAll writes hj, hlookup, Option.some_or]

/-- **A position that no value is sent to keeps its own**, that is the value which stood there at
the start. -/
theorem getElem?_sendAll_of_unsent (hj : j < l.length) (h : j ∉ writes.map Prod.fst) :
    (sendAll writes l)[j]? = l[j]? := by
  have hlookup : writes.reverse.lookup j = none := by
    refine List.lookup_eq_none_iff.mpr fun write hwrite => ?_
    rw [bne_iff_ne]
    rintro rfl
    exact h (List.mem_map_of_mem (List.mem_reverse.mp hwrite))
  rw [getElem?_sendAll writes hj, hlookup, Option.none_or]

end Sending

section Arrange

variable {values arranged : List α}

/-- **Values cannot be arranged exactly if a slot asks for a position behind them.** Without an
index a slot asks for its own position, which is never behind them. -/
theorem arrange?_eq_none_iff (hlength : indices.length = values.length) :
    arrange? indices values = none ↔ ∃ k, some k ∈ indices ∧ values.length ≤ k := by
  constructor
  · intro hnone
    by_contra hbelow
    have hlt := lt_of_mem_targets hlength fun k hk =>
      Nat.lt_of_not_le fun hle => hbelow ⟨k, hk, hle⟩
    have harranged := (arrange?_eq_some_iff hlength).mpr ⟨hlt, rfl⟩
    rw [hnone] at harranged
    cases harranged
  · rintro ⟨k, hk, hle⟩
    refine Option.eq_none_iff_forall_ne_some.mpr fun arranged harranged => ?_
    obtain ⟨position, hposition⟩ := List.mem_iff_getElem?.mp hk
    have htarget := List.mem_of_getElem? (getElem?_targets_eq_some_iff.mpr (.inl hposition))
    exact absurd (((arrange?_eq_some_iff hlength).mp harranged).1 k htarget) (Nat.not_lt.mpr hle)

/-- **Arranged values come from their sources**, each of them from one of the values that there were
before. -/
theorem getElem?_of_arrange? (hlength : indices.length = values.length)
    (h : arrange? indices values = some arranged) (hj : j < values.length)
    (hsource : IsSource indices i j) : arranged[j]? = values[i]? := by
  obtain ⟨-, rfl⟩ := (arrange?_eq_some_iff hlength).mp h
  have htargets := map_fst_sent hlength
  rcases hsource with ⟨hi, hlast⟩ | ⟨hunsent, rfl⟩
  · have hposition : i < values.length := by
      rw [← hlength, ← length_targets]
      exact (List.getElem?_eq_some_iff.mp hi).1
    have hvalue := List.getElem?_eq_getElem hposition
    rw [hvalue]
    refine getElem?_sendAll_of_last hj (List.getElem?_zip_eq_some.mpr ⟨hi, hvalue⟩) ?_
    rwa [htargets]
  · exact getElem?_sendAll_of_unsent hj (by rwa [htargets])

/-- **Values that ask for no position stay where they are.** Each is the source of its own position,
and there is no index that could be too high. -/
theorem arrange?_of_unindexed (hlength : indices.length = values.length)
    (hindex : ∀ index ∈ indices, index = none) : arrange? indices values = some values := by
  cases harranged : arrange? indices values with
  | none =>
    obtain ⟨k, hk, -⟩ := (arrange?_eq_none_iff hlength).mp harranged
    cases hindex _ hk
  | some arranged =>
    have hsame : arranged.length = values.length := by
      rw [((arrange?_eq_some_iff hlength).mp harranged).2, length_sendAll]
    refine congrArg some (List.ext_getElem? fun j => ?_)
    by_cases hj : j < values.length
    · exact getElem?_of_arrange? hlength harranged hj (isSource_self hindex j)
    · rw [List.getElem?_eq_none (by omega), List.getElem?_eq_none (by omega)]

end Arrange

/-! ## Arguments

The values to be arranged are the raw arguments with their quotes taken off, one for each slot. -/

variable {template : Template} {definition call : Text} {raw arguments : List Argument}
    {s : Slot} {n : Nat}

/-- With raw arguments, all that can go wrong is an index that is too high. It goes wrong for every
call then, whatever the values are. -/
theorem arguments?_eq_none_iff (hraw : rawArguments? template call = some raw) :
    arguments? template call = none ↔
      ∃ s ∈ template.slots, ∃ k, s.index = some k ∧ template.slots.length ≤ k := by
  have hlength := length_indices hraw
  rw [arguments?, hraw, Option.bind_some, arrange?_eq_none_iff hlength, ← hlength, List.length_map]
  constructor
  · rintro ⟨k, hk, hle⟩
    obtain ⟨s, hs, hindex⟩ := List.mem_map.mp hk
    exact ⟨s, hs, k, hindex, hle⟩
  · rintro ⟨s, hs, k, hindex, hle⟩
    exact ⟨k, List.mem_map.mpr ⟨s, hs, hindex⟩, hle⟩

/-- **Whose value stands at each position of the arguments**: that of the last slot which sends its
value there, or the position's own. There are none at all exactly if a slot asks for a position that
no slot has. -/
theorem arguments?_of_source (hraw : rawArguments? template call = some raw) :
    (arguments? template call = none ↔
        ∃ s ∈ template.slots, ∃ k, s.index = some k ∧ template.slots.length ≤ k)
      ∧ ∀ arguments, arguments? template call = some arguments →
          arguments.length = template.slots.length
            ∧ ∀ j < template.slots.length,
                (∃ i, IsSource (template.slots.map Slot.index) i j)
                  ∧ ∀ i, IsSource (template.slots.map Slot.index) i j →
                      arguments[j]? = raw[i]?.map Argument.unquoted := by
  refine ⟨arguments?_eq_none_iff hraw, fun arguments h => ⟨length_of_arguments? h, fun j hj => ?_⟩⟩
  have hlength := length_indices hraw
  refine ⟨exists_isSource _ j, fun i hsource => ?_⟩
  rw [arguments?, hraw, Option.bind_some] at h
  rw [List.length_map] at hlength
  rw [getElem?_of_arrange? (by rw [List.length_map, hlength]) h (hlength ▸ hj) hsource,
    List.getElem?_map]

/-- Two slots that ask for one position, at which a third one stands. The last of them has its value
there. -/
theorem arguments?_of_source_overwritten :
    ∃ template raw arguments, ofText? .unlimited "{1} {b} {1}".toList = .ok template
      ∧ rawArguments? template "'a' 2 'c'".toList = some raw
      ∧ arguments? template "'a' 2 'c'".toList = some arguments
      ∧ arguments.length = template.slots.length
      ∧ arguments[0]? = raw[0]?.map Argument.unquoted
      ∧ arguments[1]? = raw[2]?.map Argument.unquoted
      ∧ arguments[1]? = some ⟨['c'], .string⟩ := by
  let template : Template :=
    ⟨"{1} {b} {1}".toList, [.slot ⟨"{1}".toList, 0, some 1⟩, .literal [' '],
    .slot ⟨"{b}".toList, 4, none⟩, .literal [' '], .slot ⟨"{1}".toList, 8, some 1⟩]⟩
  have hraw : rawArguments? template "'a' 2 'c'".toList =
      some [.ofToken "'a'".toList, .ofToken ['2'], .ofToken "'c'".toList] := by
    decide +kernel
  have harguments : arguments? template "'a' 2 'c'".toList =
      some [⟨['a'], .string⟩, ⟨['c'], .string⟩, ⟨['c'], .string⟩] := by
    decide +kernel
  obtain ⟨-, hsources⟩ := arguments?_of_source hraw
  obtain ⟨hlength, hpositions⟩ := hsources _ harguments
  have hlast : IsSource (template.slots.map Slot.index) 2 1 := by
    refine .inl ⟨by decide, fun later hlater => ?_⟩
    rw [List.getElem?_eq_none hlater]
    simp
  exact ⟨template, _, _, by decide +kernel, hraw, harguments, hlength,
    (hpositions 0 (by decide)).2 0 (.inr ⟨by decide, rfl⟩),
    (hpositions 1 (by decide)).2 2 hlast, rfl⟩

/-! ### Numbers that are too high -/

theorem arguments?_of_high_index {k : Nat} (hs : s ∈ template.slots) (hindex : s.index = some k)
    (hle : template.slots.length ≤ k) (call : Text) : arguments? template call = none := by
  cases hraw : rawArguments? template call with
  | none => rw [arguments?, hraw, Option.bind_none]
  | some raw => exact (arguments?_eq_none_iff hraw).mpr ⟨s, hs, k, hindex, hle⟩

/-- **A template with a number that no slot has for its position is of no use**: no call has
arguments, and none matches. But the number has to be a machine word. Higher ones count for nothing,
so that if no other number is too high, every call with raw arguments has arguments. -/
theorem arguments?_of_high_number (hparsed : ofText? engine definition = .ok template) :
    (∀ s ∈ template.slots, ∀ n, s.IsNumbered n → template.slots.length ≤ n → n < Slot.indexBound →
        ∀ call, arguments? template call = none ∧ ∀ setting, match? setting template call = none)
      ∧ ∀ call raw, rawArguments? template call = some raw →
          (arguments? template call = none ↔
            ∃ s ∈ template.slots, ∃ n,
              s.IsNumbered n ∧ template.slots.length ≤ n ∧ n < Slot.indexBound) := by
  refine ⟨fun s hs n hnumber hle hword call => ?_, fun call raw hraw => ?_⟩
  · have hindex := (index_eq_some_iff hparsed hs).mpr ⟨hnumber, hword⟩
    refine ⟨arguments?_of_high_index hs hindex hle call, fun setting => ?_⟩
    refine Option.eq_none_iff_forall_ne_some.mpr fun arguments hmatch => ?_
    obtain ⟨-, -, -, -, harguments⟩ := match?_eq_some_iff.mp hmatch
    -- a slot keeps its number when the keyword is taken off
    have hslots := setting.slots_stripped template
    rw [arguments?_of_high_index (hslots.symm ▸ hs) hindex (hslots.symm ▸ hle)] at harguments
    cases harguments
  · rw [arguments?_eq_none_iff hraw]
    constructor
    · rintro ⟨s, hs, k, hindex, hle⟩
      obtain ⟨hnumber, hword⟩ := (index_eq_some_iff hparsed hs).mp hindex
      exact ⟨s, hs, k, hnumber, hle, hword⟩
    · rintro ⟨s, hs, n, hnumber, hle, hword⟩
      exact ⟨s, hs, n, (index_eq_some_iff hparsed hs).mpr ⟨hnumber, hword⟩, hle⟩

/-- The number of the only slot has a zero in front, and is too high by one: positions are counted
from zero. -/
theorem arguments?_of_high_number_one :
    ∃ template, ofText? .unlimited "set {01:v}".toList = .ok template
      ∧ (∃ s ∈ template.slots, s.IsNumbered 1) ∧ template.slots.length = 1
      ∧ rawArguments? template "set 5".toList = some [.ofToken ['5']]
      ∧ arguments? template "set 5".toList = none
      ∧ match? ⟨.unlimited, .empty, .default⟩ template "set 5".toList = none := by
  let template : Template :=
    ⟨"set {01:v}".toList, [.literal "set ".toList, .slot ⟨"{01:v}".toList, 4, some 1⟩]⟩
  have hparsed : ofText? .unlimited "set {01:v}".toList = .ok template := by decide +kernel
  have hslot : (⟨"{01:v}".toList, 4, some 1⟩ : Slot) ∈ template.slots := by decide
  have hnumber : (⟨"{01:v}".toList, 4, some 1⟩ : Slot).IsNumbered 1 :=
    ⟨"01".toList, ":v\x7d".toList, rfl, by decide, List.all_eq_true.mp (by decide),
    by simp, by decide⟩
  obtain ⟨hhigh, -⟩ := arguments?_of_high_number hparsed
  obtain ⟨hnone, hunmatched⟩ := hhigh _ hslot 1 hnumber (by decide) (by decide) "set 5".toList
  exact ⟨template, hparsed, ⟨_, hslot, hnumber⟩, rfl, by decide +kernel, hnone, hunmatched _⟩

/-- A number beyond machine words is much too high, and yet a call matches, because such a number is
read as none. -/
theorem exists_match?_of_overlong_number :
    ∃ template, ofText? .unlimited "{18446744073709551616}".toList = .ok template
      ∧ (∃ s ∈ template.slots, s.IsNumbered 18446744073709551616)
      ∧ template.slots.length ≤ 18446744073709551616
      ∧ arguments? template "5".toList = some [⟨['5'], .long⟩]
      ∧ match? ⟨.unlimited, .empty, .default⟩ template "5".toList = some [⟨['5'], .long⟩] := by
  refine ⟨⟨"{18446744073709551616}".toList, [.slot ⟨"{18446744073709551616}".toList, 0, none⟩]⟩,
    by decide +kernel,
    ⟨_, List.mem_singleton.mpr rfl, "18446744073709551616".toList, "\x7d".toList, rfl, ?_⟩,
    by decide, by decide +kernel, by decide +kernel⟩
  exact ⟨by decide, List.all_eq_true.mp (by decide), by simp, by decide +kernel⟩

end Call

end StepPhrase

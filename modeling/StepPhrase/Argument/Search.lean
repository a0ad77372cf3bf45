import StepPhrase.Argument.Scan

/-!
# Searching for argument tokens

`firstToken?` finds the first place of a text with a token that what follows allows, and takes the
longest such token there. It reads the text once: all tokens that have begun are followed at the
same time, in the order in which they began. Of two that are in the same state only the earlier one
is kept, because whatever completes the one completes the other.

* `firstToken?_cons` says that this comes to the same as trying one place after another;
* `race_eq` is the invariant behind it: the tokens that have begun count before what has been found,
  and that counts before any token that begins later.
-/

namespace StepPhrase

namespace Scan

/-- What has been found before counts only if nothing longer is found. -/
theorem longest_eq_or (follows : Text → Bool) (state : Scan) (taken : Text)
    (best : Option (Text × Text)) (t : Text) :
    longest follows state taken best t = (longest follows state taken none t).or best := by
  induction t generalizing state taken best with
  | nil =>
    simp only [longest]
    split <;> simp
  | cons c t ih =>
    cases hstep : state.step c with
    | none => cases hends : state.isEnd && follows (c :: t) <;> simp [longest, hstep, hends]
    | some next =>
      cases hends : state.isEnd && follows (c :: t) with
      | false => simpa [longest, hstep, hends] using ih next (c :: taken) best
      | true =>
        simp only [longest, hstep, hends, if_true]
        rw [ih next (c :: taken) (some (taken, c :: t)), Option.or_assoc, Option.some_or]

/-- Whether a token can be completed does not depend on the characters taken so far. -/
theorem isSome_longest (follows : Text → Bool) (state : Scan) (taken other t : Text) :
    (longest follows state taken none t).isSome = (longest follows state other none t).isSome := by
  induction t generalizing state taken other with
  | nil =>
    simp only [longest]
    split <;> rfl
  | cons c t ih =>
    cases hstep : state.step c with
    | none => cases hends : state.isEnd && follows (c :: t) <;> simp [longest, hstep, hends]
    | some next =>
      cases hends : state.isEnd && follows (c :: t) with
      | false => simpa [longest, hstep, hends] using ih next (c :: taken) (c :: other)
      | true =>
        simp only [longest, hstep, hends, if_true]
        rw [longest_eq_or, longest_eq_or follows next (c :: other)]
        simp

end Scan

/-- A token that has begun somewhere in the text and may still be completed. Where it began shows in
the characters taken, which is why these are kept. -/
structure Attempt where
  /-- How far into the token the scan is. -/
  scan : Scan
  /-- The characters of the token so far, last first. -/
  taken : Text

namespace Attempt

/-- A token in front of its first character. -/
def fresh : Attempt := ⟨.start, []⟩

/-- Whether the token may end in front of this text: the scan has to be where a token may end, and
the text has to be one that may follow. -/
def ends (follows : Text → Bool) (t : Text) (a : Attempt) : Bool := a.scan.isEnd && follows t

/-- The token one character further, if it can go on with it. -/
def step (c : Char) (a : Attempt) : Option Attempt :=
  (a.scan.step c).map fun scan => ⟨scan, c :: a.taken⟩

/-- The longest token that the attempt comes to, with its characters last first, and the rest. -/
def complete (follows : Text → Bool) (t : Text) (a : Attempt) : Option (Text × Text) :=
  Scan.longest follows a.scan a.taken none t

/-- The attempts one character further, without those that cannot go on with it. Of those in the
same state only the first one is kept, so there are never more attempts than states. -/
def advance (c : Char) : List Attempt → List Attempt
  | [] => []
  | a :: attempts =>
    match a.step c with
    | some b => b :: (advance c attempts).filter fun other => other.scan ≠ b.scan
    | none => advance c attempts

/-- The attempts up to the first one that ends in front of this text, and the token of that one. The
attempts behind it began later, so they cannot win any more. -/
def upToEnd (follows : Text → Bool) (t : Text) :
    List Attempt → List Attempt × Option (Text × Text)
  | [] => ([], none)
  | a :: attempts =>
    if a.ends follows t then ([a], some (a.taken, t))
    else
      let (kept, found) := upToEnd follows t attempts
      (a :: kept, found)

/-- Follows all attempts through a text, and begins new ones until a token has been found. From then
on only attempts that began before it, or that lengthen it, are still of interest. -/
def race (follows : Text → Bool) (attempts : List Attempt) (found : Option (Text × Text)) :
    Text → Option (Text × Text)
  | [] => (upToEnd follows [] attempts).2.or found
  | c :: t =>
    let attempts := if found.isSome then attempts else attempts ++ [fresh]
    let (kept, ended) := upToEnd follows (c :: t) attempts
    let found := ended.or found
    let next := advance c kept
    if next.isEmpty && found.isSome then found else race follows next found t

end Attempt

/-- The longest token at the first place of a text that has one, among those that what follows
allows, and the rest of the text. -/
def firstToken? (follows : Text → Bool) (t : Text) : Option (Text × Text) :=
  (Attempt.race follows [] none t).map fun (taken, rest) => (taken.reverse, rest)

/-! ### One place after another -/

namespace Attempt

theorem complete_nil (follows : Text → Bool) (a : Attempt) :
    a.complete follows [] = if a.ends follows [] then some (a.taken, []) else none := rfl

/-- An attempt that can go on is completed further on if it can be, and ends here if it can. -/
theorem complete_cons (follows : Text → Bool) (c : Char) (t : Text) (a : Attempt) :
    a.complete follows (c :: t) =
      ((a.step c).bind (complete follows t)).or
        (if a.ends follows (c :: t) then some (a.taken, c :: t) else none) := by
  simp only [complete, step, ends, Scan.longest]
  cases a.scan.step c with
  | none => simp
  | some next => exact Scan.longest_eq_or ..

/-- Attempts in the same state are completed both or not at all. -/
theorem complete_eq_none {follows : Text → Bool} {t : Text} {a b : Attempt}
    (hscan : a.scan = b.scan) (hnone : a.complete follows t = none) :
    b.complete follows t = none := by
  have hsome := Scan.isSome_longest follows a.scan a.taken b.taken t
  simp only [complete] at hnone ⊢
  rw [← hscan]
  rw [hnone] at hsome
  simpa using hsome.symm

/-- Dropping attempts that come to nothing changes nothing. -/
theorem findSome?_filter_of_none {follows : Text → Bool} {t : Text} (keeps : Attempt → Bool)
    (attempts : List Attempt)
    (hnone : ∀ a ∈ attempts, keeps a = false → a.complete follows t = none) :
    (attempts.filter keeps).findSome? (complete follows t) =
      attempts.findSome? (complete follows t) := by
  induction attempts with
  | nil => rfl
  | cons a attempts ih =>
    have htail := ih fun b hb => hnone b (List.mem_cons_of_mem a hb)
    cases hkeeps : keeps a with
    | true => simp [hkeeps, List.findSome?_cons, htail]
    | false =>
      have ha := hnone a List.mem_cons_self hkeeps
      simp [hkeeps, ha, htail]

theorem findSome?_advance (follows : Text → Bool) (c : Char) (t : Text) (attempts : List Attempt) :
    (advance c attempts).findSome? (complete follows t) =
      attempts.findSome? fun a => (a.step c).bind (complete follows t) := by
  induction attempts with
  | nil => rfl
  | cons a attempts ih =>
    simp only [advance, List.findSome?_cons]
    cases a.step c with
    | none => simpa using ih
    | some b =>
      simp only [List.findSome?_cons, Option.bind_some]
      cases hb : b.complete follows t with
      | some found => rfl
      | none =>
        rw [← ih]
        refine findSome?_filter_of_none _ _ fun other _ hother => ?_
        have hscan : other.scan = b.scan := by simpa using hother
        exact complete_eq_none hscan.symm hb

theorem upToEnd_nil (follows : Text → Bool) (attempts : List Attempt) :
    (upToEnd follows [] attempts).2 = attempts.findSome? (complete follows []) := by
  induction attempts with
  | nil => rfl
  | cons a attempts ih =>
    simp only [upToEnd, List.findSome?_cons, complete_nil]
    split
    · rfl
    · exact ih

/-- Of some attempts, those behind the first one that ends here do not matter any more. -/
theorem findSome?_upToEnd (follows : Text → Bool) (c : Char) (t : Text) (attempts : List Attempt) :
    ((advance c (upToEnd follows (c :: t) attempts).1).findSome? (complete follows t)).or
        (upToEnd follows (c :: t) attempts).2 =
      attempts.findSome? (complete follows (c :: t)) := by
  rw [findSome?_advance]
  induction attempts with
  | nil => rfl
  | cons a attempts ih =>
    simp only [upToEnd, List.findSome?_cons, complete_cons]
    split
    · cases hgoes : (a.step c).bind (complete follows t) with
      | none => simp [hgoes]
      | some found => simp [hgoes]
    · rw [← ih]
      cases hgoes : (a.step c).bind (complete follows t) with
      | none => simp [hgoes]
      | some found => simp [hgoes]

/-- One character of the race, given that the rest of it comes out in order. Stopping early changes
nothing: without attempts what has been found stays. -/
theorem race_cons (follows : Text → Bool) (attempts : List Attempt)
    (found : Option (Text × Text)) (c : Char) (t : Text)
    (ih : ∀ attempts found, race follows attempts found t =
      (attempts.findSome? (complete follows t)).or (found.or (race follows [] none t))) :
    race follows attempts found (c :: t) =
      ((if found.isSome then attempts else attempts ++ [fresh]).findSome?
        (complete follows (c :: t))).or (found.or (race follows [] none t)) := by
  simp only [race]
  generalize (if found.isSome then attempts else attempts ++ [fresh]) = begun
  rw [← findSome?_upToEnd, Option.or_assoc]
  split
  · next hstop =>
    obtain ⟨hnext, hfound⟩ := Bool.and_eq_true_iff.mp hstop
    obtain ⟨result, hresult⟩ := Option.isSome_iff_exists.mp hfound
    simp [List.isEmpty_iff.mp hnext, ← Option.or_assoc, hresult]
  · rw [ih, Option.or_assoc]

/-- The attempts count first, then what has been found, then the places still to come. -/
theorem race_eq (follows : Text → Bool) (attempts : List Attempt)
    (found : Option (Text × Text)) (t : Text) :
    race follows attempts found t =
      (attempts.findSome? (complete follows t)).or (found.or (race follows [] none t)) := by
  induction t generalizing attempts found with
  | nil =>
    have hnone : race follows [] none [] = none := rfl
    rw [hnone, Option.or_none, race, upToEnd_nil]
  | cons c t ih =>
    rw [race_cons follows attempts found c t ih, race_cons follows [] none c t ih]
    cases found with
    | some result => simp
    | none => simp [List.findSome?_append, Option.or_assoc]

end Attempt

@[simp] theorem firstToken?_nil (follows : Text → Bool) : firstToken? follows [] = none := rfl

/-- The first token of a text is the one at its front, or else the first one further on. -/
theorem firstToken?_cons (follows : Text → Bool) (c : Char) (t : Text) :
    firstToken? follows (c :: t) =
      (longestToken? follows (c :: t)).or (firstToken? follows t) := by
  have hrace := Attempt.race_cons follows [] none c t fun attempts found =>
    Attempt.race_eq follows attempts found t
  simp only [firstToken?, hrace]
  simp [Attempt.complete, Attempt.fresh, longestToken?, Option.map_or]

end StepPhrase

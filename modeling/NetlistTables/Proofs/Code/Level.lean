import Mathlib.Order.Bounds.Defs
import NetlistTables.Proofs.Code.Calls

/-!
# The level over a run

The level of a writer counts the lists that are open, except that it stays at zero when more are
closed than have been opened. Each call is a `change` to this count: an opening counts only if it
succeeds, a closing in any case. The sum of the changes, which may fall below zero, is the `height`
of a run. Whenever a run falls below its lowest height, the level stays at zero, and it rises from
there; so the level is the height above the lowest height so far (`level_drive`), whichever of the
calls fail.
-/

namespace NetlistTables.Code

open Output

/-- No fragment both closes a list and opens one. -/
theorem Fragment.opens_of_closes {f : Fragment} (h : f.closes) : f.opens = false := by
  cases f with
  | blockClose | elementClose => rfl
  | _ => cases h

namespace Writer

/-- By how much a call changes the height, from what it came to. -/
def change : Call → Option Fault → Int
  | .indent, _ => 1
  | .put (.enumOpen _), fault | .put (.arrayOpen _), fault | .put .elementOpen, fault =>
    if fault.isNone then 1 else 0
  | .dedent, _ | .put .blockClose, _ | .put .elementClose, _ => -1
  | _, _ => 0

/-- The change is read off what the fragment says of itself. -/
theorem change_put (f : Fragment) (fault : Option Fault) :
    change (.put f) fault =
      if f.closes then -1 else if f.opens then if fault.isNone then 1 else 0 else 0 := by
  cases f <;> rfl

variable {σ : Type} [Sink σ]

/-- The height of a run: the sum of the changes. -/
def height (w : Writer σ) : List Call → Int
  | [] => 0
  | c :: cs => change c (attempt c w).1 + height (attempt c w).2 cs

/-- The lowest height that a run passes through. -/
def lowest (w : Writer σ) : List Call → Int
  | [] => 0
  | c :: cs => min 0 (change c (attempt c w).1 + lowest (attempt c w).2 cs)

/-! ## One call -/

theorem attempt_put_cases (f : Fragment) (w : Writer σ) :
    (attempt (.put f) w).1 = none ∧ (attempt (.put f) w).2.level = f.levelAfter w.level ∨
      (∃ fault, (attempt (.put f) w).1 = some fault) ∧
        (attempt (.put f) w).2.level = f.depth w.level := by
  have hput : perform (.put f) w = _ := put_eq w f
  cases hs : Sink.writeAll (Layout.pieces w.unit (Layout.layout w.level [f])) w.sink with
  | ok x s =>
    simp only [hs] at hput
    rw [attempt_of_ok hput]
    exact .inl ⟨rfl, rfl⟩
  | error fault s =>
    simp only [hs] at hput
    rw [attempt_of_error hput]
    exact .inr ⟨⟨fault, rfl⟩, rfl⟩

theorem level_attempt_flush (w : Writer σ) : (attempt .flush w).2.level = w.level := by
  cases hs : (Sink.flush w.sink : EStateM.Result Fault σ Unit) with
  | ok x s =>
    have hflush : perform .flush w = .ok x { w with sink := s } := onSink_of_ok hs
    rw [attempt_of_ok hflush]
  | error fault s =>
    have hflush : perform .flush w = .error fault { w with sink := s } := onSink_of_error hs
    rw [attempt_of_error hflush]

/-- **A call changes the level as it changes the height**, but not below zero. -/
theorem level_attempt (c : Call) (w : Writer σ) :
    ((attempt c w).2.level : Int) = max 0 (w.level + change c (attempt c w).1) := by
  cases c with
  | indent =>
    change ((w.level + 1 : Nat) : Int) = max 0 (w.level + (1 : Int))
    omega
  | dedent =>
    change ((w.level - 1 : Nat) : Int) = max 0 (w.level + (-1 : Int))
    omega
  | flush =>
    rw [level_attempt_flush]
    change (w.level : Int) = max 0 (w.level + (0 : Int))
    omega
  | put f =>
    rw [change_put]
    rcases attempt_put_cases f w with ⟨hok, hlevel⟩ | ⟨⟨fault, hfault⟩, hlevel⟩
    · rw [hok, hlevel, Fragment.levelAfter, Fragment.depth]
      by_cases hcloses : f.closes
      · simp only [hcloses, Fragment.opens_of_closes hcloses, if_true, Bool.false_eq_true, if_false]
        omega
      · cases f.opens <;> simp [hcloses]; omega
    · rw [hfault, hlevel, Fragment.depth]
      cases f.closes <;> cases f.opens <;> simp <;> omega

/-! ## A run of calls -/

theorem lowest_nonpos (w : Writer σ) (cs : List Call) : lowest w cs ≤ 0 := by
  cases cs with
  | nil => exact Int.le_refl 0
  | cons c cs => exact Int.min_le_left 0 _

/-- The lowest height is that of a beginning of the run, and no beginning has one below it. -/
theorem isLeast_lowest (w : Writer σ) (cs : List Call) :
    IsLeast {h | ∃ k ≤ cs.length, h = height w (cs.take k)} (lowest w cs) := by
  induction cs generalizing w with
  | nil =>
    refine ⟨⟨0, Nat.le_refl 0, rfl⟩, ?_⟩
    rintro h ⟨k, -, rfl⟩
    rw [List.take_nil]
    exact Int.le_refl 0
  | cons c cs ih =>
    obtain ⟨⟨k, hk, hlowest⟩, hle⟩ := ih (attempt c w).2
    constructor
    · by_cases hneg : change c (attempt c w).1 + lowest (attempt c w).2 cs ≤ 0
      · refine ⟨k + 1, Nat.succ_le_succ hk, ?_⟩
        rw [lowest, Int.min_eq_right hneg, hlowest, List.take_succ_cons, height]
      · refine ⟨0, Nat.zero_le _, ?_⟩
        rw [lowest, Int.min_eq_left (by omega)]
        rfl
    · rintro h ⟨k, hk, rfl⟩
      cases k with
      | zero => exact lowest_nonpos w (c :: cs)
      | succ k =>
        have hle := hle ⟨k, Nat.le_of_succ_le_succ hk, rfl⟩
        rw [lowest, List.take_succ_cons, height]
        omega

/-- **The level is what the height leaves above the lowest height.** A writer that stands at a level
from the start has as much more before it stops at zero. -/
theorem level_drive (w : Writer σ) (cs : List Call) :
    ((drive w cs).level : Int) = w.level + height w cs - min 0 (w.level + lowest w cs) := by
  induction cs generalizing w with
  | nil =>
    change (w.level : Int) = w.level + (0 : Int) - min 0 (w.level + (0 : Int))
    omega
  | cons c cs ih =>
    have hlevel := level_attempt c w
    have hrest : drive w (c :: cs) = drive (attempt c w).2 cs := rfl
    have hlowest := lowest_nonpos (attempt c w).2 cs
    rw [hrest, ih, height, lowest]
    omega

/-! ## Groups of calls -/

/-- Calls in which every opening is followed by a closing, and what stands between the two is again
such calls. -/
inductive WellNested : List Call → Prop
  | nil : WellNested []
  | flat {c : Call} (h : change c none = 0) : WellNested [c]
  | group {first last : Call} {cs : List Call} (hfirst : change first none = 1)
      (hcs : WellNested cs) (hlast : change last none = -1) : WellNested (first :: cs ++ [last])
  | append {cs cs' : List Call} (h : WellNested cs) (h' : WellNested cs') : WellNested (cs ++ cs')

/-- None of some calls fails. -/
def Succeeds (w : Writer σ) : List Call → Prop
  | [] => True
  | c :: cs => (attempt c w).1 = none ∧ Succeeds (attempt c w).2 cs

theorem succeeds_append {w : Writer σ} {cs cs' : List Call} :
    Succeeds w (cs ++ cs') ↔ Succeeds w cs ∧ Succeeds (drive w cs) cs' := by
  induction cs generalizing w with
  | nil => exact (true_and _).symm.to_iff
  | cons c cs ih => rw [List.cons_append, Succeeds, Succeeds, ih, and_assoc]; rfl

/-- A group of calls that succeeds leaves the level as it was, since the level that it closes last
is the one that it has opened. -/
theorem WellNested.level_drive {cs : List Call} (h : WellNested cs) {w : Writer σ}
    (hsucceeds : Succeeds w cs) : (drive w cs).level = w.level := by
  induction h generalizing w with
  | nil => rfl
  | @flat c hflat =>
    have hlevel := level_attempt c w
    rw [hsucceeds.1, hflat] at hlevel
    have hdrive : drive w [c] = (attempt c w).2 := rfl
    rw [hdrive]
    omega
  | @group first last cs hfirst _ hlast ih =>
    obtain ⟨⟨hok, hcs⟩, hok', -⟩ := succeeds_append.1 hsucceeds
    have hopen := level_attempt first w
    have hinner := ih hcs
    have hclose := level_attempt last (drive w (first :: cs))
    have hdrive : drive w (first :: cs) = drive (attempt first w).2 cs := rfl
    rw [hok, hfirst] at hopen
    rw [hok', hlast, hdrive, hinner] at hclose
    rw [drive_snoc, hdrive]
    omega
  | append _ _ ih ih' =>
    obtain ⟨hcs, hcs'⟩ := succeeds_append.1 hsucceeds
    rw [drive_append, ih' hcs', ih hcs]

/-! ## The level of a writer -/

/-- **The level over a run.** A new writer is made the calls `cs`, on a sink that may fail anywhere.
It then stands at the height of the run less the lowest of the heights that the run has passed
through. So a well-nested group of calls none of which fails brings the writer back to the level at
which it has begun; and as long as no more has been closed than opened, the level is the height. -/
theorem level_eq_height_sub_least (sink : σ) (unit : String) (cs : List Call) :
    let w : Writer σ := ⟨sink, unit, 0⟩
    (∃ least, IsLeast {h | ∃ k ≤ cs.length, h = height w (cs.take k)} least ∧
        (drive w cs).level = height w cs - least) ∧
      (∀ group, WellNested group → Succeeds (drive w cs) group →
        (drive w (cs ++ group)).level = (drive w cs).level) ∧
      ((∀ k ≤ cs.length, 0 ≤ height w (cs.take k)) →
        ∀ k ≤ cs.length, (drive w (cs.take k)).level = height w (cs.take k)) := by
  intro w
  have hlevel (cs : List Call) : ((drive w cs).level : Int) = height w cs - lowest w cs := by
    have hdrive := level_drive w cs
    have hlowest := lowest_nonpos w cs
    have hzero : w.level = 0 := rfl
    omega
  refine ⟨⟨lowest w cs, isLeast_lowest w cs, hlevel cs⟩, ?_, ?_⟩
  · intro group hnested hsucceeds
    rw [drive_append, hnested.level_drive hsucceeds]
  · intro hopen k hk
    obtain ⟨j, hj, hlowest⟩ := (isLeast_lowest w (cs.take k)).1
    have hnonneg : 0 ≤ height w ((cs.take k).take j) := by
      rw [List.take_take]
      exact hopen _ (Nat.le_trans (Nat.min_le_right j k) hk)
    have hnonpos := lowest_nonpos w (cs.take k)
    rw [hlevel]
    omega

/-- A flush that fails does not count, and an element that is opened and closed does not either. -/
theorem level_eq_height_sub_least_of_element :
    let w : Writer Device := ⟨.fresh (some 10) true, "  ", 0⟩
    let cs : List Call := [.indent, .flush]
    let group : List Call := [.put .elementOpen, .put .blank, .put .elementClose]
    (WellNested group ∧ Succeeds (drive w cs) group ∧
        ∀ k ≤ cs.length, 0 ≤ height w (cs.take k)) ∧
      (attempt .flush w).1 = some .flushFailed ∧ (drive w cs).level = 1 ∧
      (drive w (cs ++ group)).level = 1 := by
  intro w cs group
  have hnested : WellNested group := .group rfl (.flat rfl) rfl
  have hsucceeds : Succeeds (drive w cs) group := ⟨by decide, by decide, by decide, trivial⟩
  have hopen : ∀ k ≤ cs.length, 0 ≤ height w (cs.take k) := by decide
  obtain ⟨-, hgroup, hlevel⟩ := level_eq_height_sub_least w.sink "  " cs
  have hheight : height w (cs.take 2) = 1 := by decide
  have hdrive : (drive w cs).level = 1 := by
    have hcs := hlevel hopen 2 (Nat.le_refl 2)
    rw [hheight] at hcs
    exact Int.ofNat.inj hcs
  exact ⟨⟨hnested, hsucceeds, hopen⟩, by decide, hdrive,
    (hgroup group hnested hsucceeds).trans hdrive⟩

/-- On a device without room the element is not opened, but closed, and so the level is one less
than what it was before. Closing once more leaves it at zero. -/
example : ([1, 2, 3, 4].map fun k => (drive (⟨.fresh (some 0) false, "\t", 0⟩ : Writer Device)
    ([.indent, .put .elementOpen, .put .elementClose, .dedent].take k)).level) = [1, 1, 0, 0] := by
  decide

example : WellNested [.put .elementOpen, .put .blank, .indent, .dedent, .put .elementClose] :=
  .group rfl (.append (.flat rfl) (.group rfl .nil rfl)) rfl

end Writer

end NetlistTables.Code

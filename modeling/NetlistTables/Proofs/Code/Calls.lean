import NetlistTables.Proofs.Code.Layout

/-!
# Calls past a fault

A writer may be used on after a call has failed, and is then told the same as a writer that has
unlimited room: it has fewer levels than that one, since a list whose opening has failed is not
indented but still closed, and so would write other texts. `Clipped` says how the two compare, it
is kept by every call (`Clipped.attempt`), and from it follows what a device of some capacity holds
after any calls (`drive_bounded`).
-/

namespace NetlistTables.Code

open Output

theorem Fragment.depth_mono (f : Fragment) {k l : Nat} (h : k ≤ l) : f.depth k ≤ f.depth l := by
  unfold Fragment.depth
  split
  · exact Nat.sub_le_sub_right h 1
  · exact h

theorem Fragment.depth_le_levelAfter (f : Fragment) (l : Nat) : f.depth l ≤ f.levelAfter l := by
  unfold Fragment.levelAfter
  split <;> omega

namespace Writer

open Layout

/-! ## Calls, one after the other -/

section Drive

variable {σ : Type} [Sink σ]

/-- What a call comes to: the fault that it ends in, if it fails, and the writer after it. -/
def attempt (c : Call) (w : Writer σ) : Option Fault × Writer σ :=
  match perform c w with
  | .ok _ w => (none, w)
  | .error fault w => (some fault, w)

/-- The writer after some calls, each of which is made whether or not those before it failed. -/
def drive (w : Writer σ) (cs : List Call) : Writer σ := cs.foldl (fun w c => (attempt c w).2) w

theorem attempt_of_ok {c : Call} {w w' : Writer σ} {x : Unit} (h : perform c w = .ok x w') :
    attempt c w = (none, w') := by
  rw [attempt, h]

theorem attempt_of_error {c : Call} {w w' : Writer σ} {fault : Fault}
    (h : perform c w = .error fault w') : attempt c w = (some fault, w') := by
  rw [attempt, h]

theorem drive_append (w : Writer σ) (cs cs' : List Call) :
    drive w (cs ++ cs') = drive (drive w cs) cs' :=
  List.foldl_append

theorem drive_snoc (w : Writer σ) (cs : List Call) (c : Call) :
    drive w (cs ++ [c]) = (attempt c (drive w cs)).2 :=
  drive_append w cs [c]

end Drive

/-! ## Calls on a device -/

/-- The bytes that a writer would write a fragment as. -/
def bytesOf (w : Writer Device) (f : Fragment) : ByteArray :=
  (text w.unit (layout w.level [f])).toUTF8

theorem attempt_put {w : Writer Device} (h : w.sink.fits .empty) (f : Fragment) :
    attempt (.put f) w =
      if w.sink.fits (w.bytesOf f) then
        (none, { w with sink := w.sink.given (w.bytesOf f), level := f.levelAfter w.level })
      else
        (some w.sink.overflow,
          { w with sink := w.sink.given (w.bytesOf f), level := f.depth w.level }) := by
  have hwrite : Sink.writeAll (pieces w.unit (layout w.level [f])) w.sink =
      if w.sink.fits (w.bytesOf f) then .ok () (w.sink.given (w.bytesOf f))
      else .error w.sink.overflow (w.sink.given (w.bytesOf f)) := by
    rw [Device.writeAll_eq h, join_pieces]
    rfl
  by_cases hfits : w.sink.fits (w.bytesOf f)
  · rw [if_pos hfits] at hwrite ⊢
    apply attempt_of_ok
    rw [perform, put_eq, hwrite]
  · rw [if_neg hfits] at hwrite ⊢
    apply attempt_of_error
    rw [perform, put_eq, hwrite]

theorem attempt_put_of_unbounded {u : Writer Device} (h : u.sink.capacity = none) (f : Fragment) :
    attempt (.put f) u =
      (none, { u with sink := u.sink.given (u.bytesOf f), level := f.levelAfter u.level }) :=
  attempt_of_ok (put_of_unbounded h f)

theorem attempt_flush (w : Writer Device) : attempt .flush w = (w.sink.flushFault, w) := by
  have hflush := Device.flush_eq w.sink
  cases hf : w.sink.flushFault with
  | none =>
    rw [hf] at hflush
    exact attempt_of_ok (onSink_of_ok hflush)
  | some fault =>
    rw [hf] at hflush
    exact attempt_of_error (onSink_of_error hflush)

theorem size_bytesOf_pos (w : Writer Device) (f : Fragment) : 0 < (w.bytesOf f).size :=
  size_text_layout_pos w.unit w.level f []

/-! ## Calls without bounds -/

section Unbounded

variable {u : Writer Device}

/-- Without bounds, a call adds some bytes, or none, to what is stored. -/
theorem exists_stored_attempt (h : u.sink.capacity = none) (c : Call) :
    (attempt c u).2.sink.capacity = none ∧
      ∃ bytes, (attempt c u).2.sink.stored = u.sink.stored ++ bytes := by
  cases c with
  | put f =>
    rw [attempt_put_of_unbounded h]
    exact ⟨h, u.bytesOf f, Device.stored_given_of_unbounded h _⟩
  | flush =>
    rw [attempt_flush]
    exact ⟨h, .empty, ByteArray.append_empty.symm⟩
  | indent => exact ⟨h, .empty, ByteArray.append_empty.symm⟩
  | dedent => exact ⟨h, .empty, ByteArray.append_empty.symm⟩

/-- Without bounds, calls add some bytes, or none, to what is stored. -/
theorem exists_stored_drive (h : u.sink.capacity = none) (cs : List Call) :
    ∃ bytes, (drive u cs).sink.stored = u.sink.stored ++ bytes := by
  induction cs generalizing u with
  | nil => exact ⟨.empty, ByteArray.append_empty.symm⟩
  | cons c cs ih =>
    obtain ⟨hcapacity, x, hx⟩ := exists_stored_attempt h c
    obtain ⟨y, hy⟩ := ih hcapacity
    refine ⟨x ++ y, ?_⟩
    rw [← ByteArray.append_assoc, ← hx, ← hy]
    rfl

end Unbounded

/-! ## The same calls with and without bounds -/

/-- The writer `w`, on a fresh device of capacity `n`, after some calls, and the writer `u`, on a
device without bounds, after the same calls. -/
structure Clipped (n : Nat) (flushFails : Bool) (w u : Writer Device) : Prop where
  bounded : w.sink = { Device.fresh (some n) flushFails with stored := u.sink.stored.extract 0 n }
  unbounded : u.sink.capacity = none
  unit : w.unit = u.unit
  level_le : w.level ≤ u.level
  /-- As long as there is room, nothing tells the two apart. -/
  level_eq : u.sink.stored.size ≤ n → w.level = u.level

namespace Clipped

variable {n : Nat} {flushFails : Bool} {w u : Writer Device}

theorem stored_eq (h : Clipped n flushFails w u) :
    w.sink.stored = u.sink.stored.extract 0 n := by
  rw [h.bounded]

/-- What the two store of a fragment has the same beginning, and either all of both is within the
bounds or more than the bounds of both. -/
theorem stored_append (h : Clipped n flushFails w u) (f : Fragment) :
    (w.sink.stored ++ w.bytesOf f).extract 0 n =
        (u.sink.stored ++ u.bytesOf f).extract 0 n ∧
      ((w.sink.stored ++ w.bytesOf f).size ≤ n ↔ (u.sink.stored ++ u.bytesOf f).size ≤ n) := by
  by_cases hroom : u.sink.stored.size ≤ n
  · have hbytes : w.bytesOf f = u.bytesOf f := by
      rw [bytesOf, bytesOf, h.unit, h.level_eq hroom]
    rw [h.stored_eq, extract_of_size_le hroom, hbytes]
    exact ⟨rfl, Iff.rfl⟩
  · -- the room has run out, and every fragment has a byte
    have hpos := size_bytesOf_pos w f
    have hsize : (u.sink.stored.extract 0 n).size = n := by
      rw [ByteArray.size_extract]
      omega
    rw [h.stored_eq]
    constructor
    · rw [extract_append_of_le (by omega), extract_append_of_le (by omega), extract_of_size_le]
      omega
    · rw [ByteArray.size_append, ByteArray.size_append]
      omega

/-- Before the first call. -/
theorem start (unit : String) (n : Nat) (flushFails : Bool) :
    Clipped n flushFails ⟨.fresh (some n) flushFails, unit, 0⟩ ⟨.unlimited, unit, 0⟩ := by
  have hempty : ByteArray.empty.extract 0 n = .empty := extract_of_size_le (Nat.zero_le n)
  refine ⟨?_, rfl, rfl, Nat.le_refl 0, fun _ => rfl⟩
  change Device.fresh _ _ = { Device.fresh _ _ with stored := ByteArray.empty.extract 0 n }
  rw [hempty]
  rfl

theorem attempt_put (h : Clipped n flushFails w u) (f : Fragment) :
    Clipped n flushFails (attempt (.put f) w).2 (attempt (.put f) u).2 ∧
      (attempt (.put f) w).1 =
        if n < (attempt (.put f) u).2.sink.stored.size then some .full else none := by
  have hcapacity : w.sink.capacity = some n := by rw [h.bounded]; rfl
  obtain ⟨hstored, hsize⟩ := h.stored_append f
  have hempty : w.sink.fits .empty := by
    rw [Device.fits_iff hcapacity, ByteArray.append_empty, h.bounded, ByteArray.size_extract]
    omega
  have hu : (u.sink.given (u.bytesOf f)).stored = u.sink.stored ++ u.bytesOf f :=
    Device.stored_given_of_unbounded h.unbounded _
  have hbounded : w.sink.given (w.bytesOf f) =
      { Device.fresh (some n) flushFails with
        stored := (u.sink.given (u.bytesOf f)).stored.extract 0 n } := by
    rw [hu, ← hstored, ← Device.stored_given hcapacity, Device.given, h.bounded]
  rw [attempt_put_of_unbounded h.unbounded, Writer.attempt_put hempty]
  by_cases hfits : w.sink.fits (w.bytesOf f)
  · have hle : (u.sink.given (u.bytesOf f)).stored.size ≤ n := by
      rw [hu, ← hsize, ← Device.fits_iff hcapacity]
      exact hfits
    have hroom : u.sink.stored.size ≤ n := by
      rw [hu, ByteArray.size_append] at hle
      omega
    have hlevel : f.levelAfter w.level = f.levelAfter u.level := by rw [h.level_eq hroom]
    rw [if_pos hfits, if_neg (Nat.not_lt.2 hle)]
    exact ⟨⟨hbounded, h.unbounded, h.unit, Nat.le_of_eq hlevel, fun _ => hlevel⟩, rfl⟩
  · have hlt : n < (u.sink.given (u.bytesOf f)).stored.size := by
      rw [hu, ← Nat.not_le, ← hsize, ← Device.fits_iff hcapacity]
      exact hfits
    have hlevel : f.depth w.level ≤ f.levelAfter u.level :=
      Nat.le_trans (f.depth_mono h.level_le) (f.depth_le_levelAfter u.level)
    have hoverflow : w.sink.overflow = .full := by rw [h.bounded]; rfl
    rw [if_neg hfits, if_pos hlt, hoverflow]
    exact ⟨⟨hbounded, h.unbounded, h.unit, hlevel, fun hle => absurd hle (Nat.not_le.2 hlt)⟩, rfl⟩

theorem attempt (h : Clipped n flushFails w u) (c : Call) :
    Clipped n flushFails (attempt c w).2 (attempt c u).2 := by
  cases c with
  | put f => exact (h.attempt_put f).1
  | flush =>
    rw [attempt_flush, attempt_flush]
    exact h
  | indent =>
    refine ⟨h.bounded, h.unbounded, h.unit, ?_, ?_⟩
    · exact Nat.add_le_add_right h.level_le 1
    · exact fun hroom => congrArg (· + 1) (h.level_eq hroom)
  | dedent =>
    refine ⟨h.bounded, h.unbounded, h.unit, ?_, ?_⟩
    · exact Nat.sub_le_sub_right h.level_le 1
    · exact fun hroom => congrArg (· - 1) (h.level_eq hroom)

theorem drive (h : Clipped n flushFails w u) (cs : List Call) :
    Clipped n flushFails (drive w cs) (drive u cs) := by
  induction cs generalizing w u with
  | nil => exact h
  | cons c cs ih => exact ih (h.attempt c)

/-- When the room has run out, fragments fail and leave nothing. -/
theorem attempt_put_of_full (h : Clipped n flushFails w u) (hfull : n < u.sink.stored.size)
    (f : Fragment) :
    (Writer.attempt (.put f) w).1 ≠ none ∧
      (Writer.attempt (.put f) w).2.sink.stored = w.sink.stored := by
  obtain ⟨hclipped, hfault⟩ := h.attempt_put f
  obtain ⟨-, bytes, hu⟩ := exists_stored_attempt h.unbounded (.put f)
  constructor
  · rw [hfault, hu, ByteArray.size_append, if_pos (by omega)]
    exact Option.some_ne_none _
  · rw [hclipped.stored_eq, h.stored_eq, hu, extract_append_of_le (Nat.le_of_lt hfull)]

end Clipped

/-- **Calls past a fault.** Two writers are made the calls `cs`: one on a device of capacity `n`,
the other on a device without bounds. The first then holds the first `n` bytes of what the second
holds, and stands no deeper. Of the calls that the first may be made next, only a flush that its
device refuses fails, and the writing of a fragment with which the second passes `n` bytes. Once a
fragment has failed, later ones fail too and write nothing. -/
theorem drive_bounded (unit : String) (n : Nat) (flushFails : Bool) (cs : List Call) :
    let limited := drive (⟨.fresh (some n) flushFails, unit, 0⟩ : Writer Device)
    let free := drive (⟨.unlimited, unit, 0⟩ : Writer Device)
    (limited cs).sink.stored = (free cs).sink.stored.extract 0 n ∧
      (limited cs).level ≤ (free cs).level ∧
      (attempt .indent (limited cs)).1 = none ∧
      (attempt .dedent (limited cs)).1 = none ∧
      (attempt .flush (limited cs)).1 = (if flushFails then some .flushFailed else none) ∧
      ∀ f, (attempt (.put f) (limited cs)).1 =
          (if n < (free (cs ++ [.put f])).sink.stored.size then some .full else none) ∧
        ((attempt (.put f) (limited cs)).1 ≠ none → ∀ later g,
          let w := limited (cs ++ .put f :: later)
          (attempt (.put g) w).1 ≠ none ∧ (attempt (.put g) w).2.sink.stored = w.sink.stored) := by
  intro limited free
  have hclipped (cs : List Call) : Clipped n flushFails (limited cs) (free cs) :=
    (Clipped.start unit n flushFails).drive cs
  refine ⟨(hclipped cs).stored_eq, (hclipped cs).level_le, rfl, rfl, ?_, fun f => ?_⟩
  · rw [attempt_flush, (hclipped cs).bounded]
    rfl
  · have hput : (attempt (.put f) (limited cs)).1 =
        if n < (free (cs ++ [.put f])).sink.stored.size then some .full else none := by
      rw [((hclipped cs).attempt_put f).2, ← drive_snoc]
    refine ⟨hput, fun hfault later g => (hclipped _).attempt_put_of_full ?_ g⟩
    obtain ⟨bytes, hlater⟩ := exists_stored_drive (hclipped (cs ++ [.put f])).unbounded later
    rw [← drive_append, List.append_assoc, List.singleton_append] at hlater
    rw [hlater, ByteArray.size_append]
    split at hput
    next hlt => omega
    next => exact absurd hput hfault

end Writer

end NetlistTables.Code

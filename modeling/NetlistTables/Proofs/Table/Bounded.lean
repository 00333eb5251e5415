import NetlistTables.Proofs.Table.Emitted

/-!
# Emission to a sink that fails

A sink may run out of room at any byte of a file, and its flush may fail. What an emission leaves
there is fixed by the text of the file alone: the sink holds the longest beginning of the text that
it has room for, a lack of room is reported before the flush is tried, and a failing flush is
reported when all of the text has been stored.
-/

namespace NetlistTables.Table

open Output

variable {kind : FileKind} {c : Config} {t : List Primitive}

/-- Only the sink makes an emission fail: no table and no names do. -/
theorem exists_fault_of_emit {σ : Type} [Sink σ] {s : σ} {failure : Failure}
    (h : (emit kind c t s).result = .error failure) : ∃ fault, failure = .output fault := by
  obtain ⟨passed, -, hemit⟩ := emit_eq kind c t s
  rw [hemit] at h
  split at h
  · cases h
  next fault _ _ => exact ⟨fault, (Except.error.inj h).symm⟩

/-- An emission to a fresh device stores what fits, and reports a lack of room before the flush. -/
theorem emit_fresh (kind : FileKind) (c : Config) (t : List Primitive) (capacity : Option Nat)
    (flushFails : Bool) :
    let d := Device.fresh capacity flushFails
    (emit kind c t d).sink.stored = (d.given (text kind c t).toUTF8).stored ∧
      (emit kind c t d).result =
        if d.fits (text kind c t).toUTF8 then
          if flushFails then .error (.output .flushFailed) else .ok ()
        else .error (.output .full) := by
  intro d
  obtain ⟨passed, -, h⟩ := emit_eq kind c t d
  have hempty : d.fits .empty := (Device.fits_fresh ..).2 fun n _ => Nat.zero_le n
  have hwrite := Device.writeAll_eq hempty (pieces kind c t)
  simp only [join_pieces] at hwrite
  by_cases hfits : d.fits (text kind c t).toUTF8
  · rw [if_pos hfits] at hwrite ⊢
    rw [h, Action.bind_of_ok hwrite]
    cases flushFails <;> exact ⟨rfl, rfl⟩
  · rw [if_neg hfits] at hwrite ⊢
    rw [h, Action.bind_of_error hwrite]
    exact ⟨rfl, rfl⟩

/-- **Emission to a sink that fails.** Let `written` be what the emission of a table stores on a
device without bounds. On a device of some capacity, the emission stores the beginning of `written`
that fits, and it succeeds just if all of it fits and the flush does not fail. A lack of room is
reported whether or not the flush would fail, and a failing flush once all is stored. -/
theorem emit_bounded (kind : FileKind) (c : Config) (t : List Primitive) (capacity : Option Nat)
    (flushFails : Bool) :
    let written := (emit kind c t Device.unlimited).sink.stored
    let fits := ∀ n, capacity = some n → written.size ≤ n
    let e := emit kind c t (Device.fresh capacity flushFails)
    e.sink.stored = capacity.elim written (fun n => written.extract 0 (min n written.size)) ∧
      (e.result = .ok () ↔ fits ∧ flushFails = false) ∧
      (¬ fits → ∃ fault, e.result = .error (.output fault) ∧ fault.text = "sink full") ∧
      (fits → flushFails = true → e.sink.stored = written ∧
        ∃ fault, e.result = .error (.output fault) ∧ fault.text = "flush failed") ∧
      ∀ failure, e.result = .error failure → ∃ fault, failure = .output fault := by
  intro written fits e
  obtain ⟨hstored, hresult⟩ := emit_fresh kind c t capacity flushFails
  rw [← (emit_unlimited kind c t).2, Device.stored_given_fresh] at hstored
  rw [← (emit_unlimited kind c t).2] at hresult
  have hfits : (Device.fresh capacity flushFails).fits written ↔ fits := Device.fits_fresh ..
  have hfull (h : ¬ fits) : e.result = .error (.output .full) :=
    hresult.trans (if_neg (mt hfits.1 h))
  have hroom (h : fits) :
      e.result = if flushFails then .error (.output .flushFailed) else .ok () :=
    hresult.trans (if_pos (hfits.2 h))
  refine ⟨?_, ?_, fun h => ⟨.full, hfull h, rfl⟩, ?_, fun failure => exists_fault_of_emit⟩
  · rw [hstored]
    cases capacity with
    | none => rfl
    | some n => exact (extract_min_size written n).symm
  · by_cases h : fits
    · rw [hroom h]
      cases flushFails <;> simp [h]
    · rw [hfull h]
      simp [h]
  · intro h hflush
    refine ⟨?_, .flushFailed, (hroom h).trans (if_pos hflush), rfl⟩
    rw [hstored]
    cases capacity with
    | none => rfl
    | some n => exact extract_of_size_le (h n rfl)

end NetlistTables.Table

import NetlistTables.Output.Buffered
import NetlistTables.Output.Device

/-!
# Writes in a row

Texts that are written one after the other, until one of them fails. What that comes to depends on
the sink alone, and not on how a text has been cut up into writes:

* a device stores the longest beginning of the joined text that fits, and fails just if not all of
  it fits (`Device.writeAll_eq`);
* a buffer before a device without bounds takes everything, passes a beginning on to the device and
  keeps the rest (`Buffered.writeAll_eq`), which the next flush passes on (`Buffered.flush_eq`);
* a buffer before a device without room takes what it can keep, and fails as soon as it passes
  anything on, which is no later than at the flush (`Buffered.writeAll_flush_exhausted`).
-/

namespace NetlistTables.Output

namespace Action

variable {σ α β : Type} {a : Action σ α} {f : α → Action σ β} {s s' : σ}

/-- A step that succeeds, before the rest of an action. -/
theorem bind_of_ok {x : α} (h : a s = .ok x s') : (a >>= f) s = f x s' := by
  simp only [bind, EStateM.bind, h]

/-- A step that fails ends the action. -/
theorem bind_of_error {fault : Fault} (h : a s = .error fault s') :
    (a >>= f) s = .error fault s' := by
  simp only [bind, EStateM.bind, h]

/-- Reading the state, before the rest of an action. -/
theorem get_bind (f : σ → Action σ β) (s : σ) : ((get : Action σ σ) >>= f) s = f s s := rfl

end Action

namespace Sink

variable {σ : Type} [Sink σ]

/-- Write some texts, one after the other. -/
def writeAll (ss : List String) : Action σ Unit := ss.forM fun s => write s.toUTF8

theorem writeAll_nil (s : σ) : writeAll [] s = .ok () s := rfl

theorem writeAll_cons (t : String) (ts : List String) :
    (writeAll (t :: ts) : Action σ Unit) = write t.toUTF8 >>= fun _ => writeAll ts := rfl

theorem writeAll_append (ss ts : List String) :
    (writeAll (ss ++ ts) : Action σ Unit) = writeAll ss >>= fun _ => writeAll ts := by
  induction ss with
  | nil => rfl
  | cons s ss ih => rw [List.cons_append, writeAll_cons, ih, writeAll_cons, bind_assoc]

end Sink

theorem toUTF8_join_cons (s : String) (ss : List String) :
    (String.join (s :: ss)).toUTF8 = s.toUTF8 ++ (String.join ss).toUTF8 := by
  simp [String.toByteArray_append]

/-! ## Beginnings of bytes -/

theorem extract_of_size_le {x : ByteArray} {n : Nat} (h : x.size ≤ n) : x.extract 0 n = x := by
  rw [← Nat.max_eq_left h, ByteArray.extract_zero_max_size]

theorem extract_append_of_le {x y : ByteArray} {n : Nat} (h : n ≤ x.size) :
    (x ++ y).extract 0 n = x.extract 0 n := by
  rw [ByteArray.extract_append, Nat.sub_eq_zero_of_le h, Nat.zero_sub, ByteArray.extract_same,
    ByteArray.append_empty]

theorem extract_min_size (x : ByteArray) (n : Nat) :
    x.extract 0 (min n x.size) = x.extract 0 n := by
  have h : (x.extract 0 x.size).extract 0 n = x.extract 0 (min n x.size) := by
    rw [ByteArray.extract_extract, Nat.zero_add, Nat.zero_add]
  rw [← h, ByteArray.extract_zero_size]

/-! ## Devices -/

namespace Device

/-- A fresh device of some capacity, or of none, every flush of which may be made to fail. -/
def fresh (capacity : Option Nat) (flushFails : Bool) : Device :=
  { capacity, flushFault := if flushFails then some .flushFailed else none }

/-- Do some more bytes fit? -/
def fits (d : Device) (bytes : ByteArray) : Bool :=
  d.capacity.all fun n => (d.stored ++ bytes).size ≤ n

/-- The device `d` after it has been given some bytes, of which it stores those that fit. -/
def given (d : Device) (bytes : ByteArray) : Device :=
  { d with stored := d.capacity.elim (d.stored ++ bytes) ((d.stored ++ bytes).extract 0) }

variable {d : Device} {x y : ByteArray}

theorem stored_given_of_fits (h : d.fits x) : (d.given x).stored = d.stored ++ x := by
  unfold fits at h
  unfold given
  cases hc : d.capacity with
  | none => rfl
  | some n =>
    rw [hc] at h
    exact extract_of_size_le (of_decide_eq_true h)

theorem fits_of_unbounded (h : d.capacity = none) (x : ByteArray) : d.fits x := by
  rw [fits, h]
  rfl

theorem stored_given_of_unbounded (h : d.capacity = none) (x : ByteArray) :
    (d.given x).stored = d.stored ++ x :=
  stored_given_of_fits (fits_of_unbounded h x)

theorem fits_iff {n : Nat} (h : d.capacity = some n) : d.fits x ↔ (d.stored ++ x).size ≤ n := by
  rw [fits, h, Option.all_some, decide_eq_true_iff]

theorem stored_given {n : Nat} (h : d.capacity = some n) :
    (d.given x).stored = (d.stored ++ x).extract 0 n := by
  rw [given, h]
  rfl

theorem write_eq (d : Device) (x : ByteArray) :
    Sink.write x d = if d.fits x then .ok () (d.given x) else .error d.overflow (d.given x) := by
  change write x d = _
  cases hc : d.capacity with
  | none =>
    rw [write_of_unlimited hc, fits, given, hc]
    rfl
  | some n =>
    by_cases h : (d.stored ++ x).size ≤ n
    · have hfits : d.fits x := by
        rw [fits, hc]
        exact decide_eq_true h
      rw [write_of_fits hc h, if_pos hfits, ← stored_given_of_fits hfits]
      rfl
    · have hfits : ¬ d.fits x := by
        rw [fits, hc]
        exact fun h' => h (of_decide_eq_true h')
      rw [write_of_overflows hc h, if_neg hfits, given, hc]
      rfl

theorem fits_given (h : d.fits x) : (d.given x).fits y = d.fits (x ++ y) := by
  rw [fits, stored_given_of_fits h, ByteArray.append_assoc]
  rfl

theorem fits_of_fits_append (h : d.fits (x ++ y)) : d.fits x := by
  unfold fits at h ⊢
  cases hc : d.capacity with
  | none => rfl
  | some n =>
    rw [hc] at h
    have hle : (d.stored ++ (x ++ y)).size ≤ n := of_decide_eq_true h
    rw [← ByteArray.append_assoc, ByteArray.size_append] at hle
    exact decide_eq_true (by omega)

theorem given_given (h : d.fits x) : (d.given x).given y = d.given (x ++ y) := by
  rw [given, stored_given_of_fits h, ByteArray.append_assoc]
  rfl

/-- Nothing is stored behind what did not fit. -/
theorem given_append_of_not_fits (h : ¬ d.fits x) : d.given (x ++ y) = d.given x := by
  unfold fits at h
  unfold given
  cases hc : d.capacity with
  | none =>
    rw [hc] at h
    exact absurd rfl h
  | some n =>
    rw [hc] at h
    have hlt : ¬ (d.stored ++ x).size ≤ n := fun hle => h (decide_eq_true hle)
    have hstored : (d.stored ++ (x ++ y)).extract 0 n = (d.stored ++ x).extract 0 n := by
      rw [← ByteArray.append_assoc, extract_append_of_le (by omega)]
    simp only [Option.elim_some, hstored]

theorem given_empty (h : d.fits .empty) : d.given .empty = d := by
  have hstored := stored_given_of_fits h
  rw [ByteArray.append_empty] at hstored
  calc d.given .empty
    _ = { d with stored := (d.given .empty).stored } := rfl
    _ = d := by rw [hstored]

theorem fits_fresh (capacity : Option Nat) (flushFails : Bool) (x : ByteArray) :
    (fresh capacity flushFails).fits x ↔ ∀ n, capacity = some n → x.size ≤ n := by
  have hempty : (fresh capacity flushFails).stored ++ x = x := ByteArray.empty_append
  rw [fits, hempty]
  cases capacity with
  | none => simp [fresh]
  | some n => simp [fresh]

theorem stored_given_fresh (capacity : Option Nat) (flushFails : Bool) (x : ByteArray) :
    ((fresh capacity flushFails).given x).stored = capacity.elim x (x.extract 0) := by
  have hempty : (fresh capacity flushFails).stored ++ x = x := ByteArray.empty_append
  rw [given, hempty]
  rfl

/-- **A device stores the longest beginning that fits**, and fails just if not all of it fits,
however it is cut up into writes. -/
theorem writeAll_eq (h : d.fits .empty) (ss : List String) :
    Sink.writeAll ss d =
      let bytes := (String.join ss).toUTF8
      if d.fits bytes then .ok () (d.given bytes) else .error d.overflow (d.given bytes) := by
  induction ss generalizing d with
  | nil =>
    have hjoin : (String.join []).toUTF8 = .empty := rfl
    rw [hjoin, if_pos h, given_empty h, Sink.writeAll_nil]
  | cons s ss ih =>
    simp only [Sink.writeAll_cons, toUTF8_join_cons]
    have hs := write_eq d s.toUTF8
    by_cases hfits : d.fits s.toUTF8
    · rw [if_pos hfits] at hs
      have hempty : (d.given s.toUTF8).fits .empty := by
        rw [fits_given hfits, ByteArray.append_empty]
        exact hfits
      rw [Action.bind_of_ok hs, ih hempty, ← fits_given hfits, ← given_given hfits]
      rfl
    · rw [if_neg hfits] at hs
      rw [Action.bind_of_error hs, given_append_of_not_fits hfits,
        if_neg fun h' => hfits (fits_of_fits_append h')]

/-- A device without room refuses all bytes, and stays as it is. -/
theorem write_exhausted (x : ByteArray) :
    Sink.write x exhausted =
      if x.size = 0 then .ok () exhausted else .error .noSpace exhausted := by
  have hcapacity : exhausted.capacity = some 0 := rfl
  have hempty : exhausted.stored ++ x = x := ByteArray.empty_append
  have hgiven : exhausted.given x = exhausted := by
    rw [given, hempty, hcapacity, Option.elim_some, ByteArray.extract_same]
    rfl
  have hfits : exhausted.fits x ↔ x.size = 0 := by
    rw [fits_iff hcapacity, hempty, Nat.le_zero]
  rw [write_eq, hgiven]
  simp only [hfits]
  rfl

theorem flush_eq (d : Device) :
    flush d = d.flushFault.elim (.ok () d) fun fault => .error fault d := by
  unfold flush
  cases d.flushFault <;> rfl

end Device

/-! ## Buffers before devices without bounds -/

namespace Buffered

/-- All that a buffer has taken: what the device has stored, and what is pending. -/
def taken (b : Buffered Device) : ByteArray := b.sink.stored ++ b.pending

/-- The buffer `b'` is `b` after it has taken some more bytes. -/
structure Extends (b b' : Buffered Device) (bytes : ByteArray) : Prop where
  taken : b'.taken = b.taken ++ bytes
  capacity : b'.sink.capacity = b.sink.capacity
  flushFault : b'.sink.flushFault = b.sink.flushFault

variable {b b' b'' : Buffered Device} {x y : ByteArray}

theorem Extends.refl (b : Buffered Device) : b.Extends b .empty :=
  ⟨ByteArray.append_empty.symm, rfl, rfl⟩

theorem Extends.trans (h : b.Extends b' x) (h' : b'.Extends b'' y) : b.Extends b'' (x ++ y) where
  taken := by rw [h'.taken, h.taken, ByteArray.append_assoc]
  capacity := h'.capacity.trans h.capacity
  flushFault := h'.flushFault.trans h.flushFault

theorem onSink_write_eq (h : b.sink.capacity = none) (x : ByteArray) :
    onSink (Sink.write x) b =
      .ok () { b with sink := { b.sink with stored := b.sink.stored ++ x } } := by
  simp only [onSink, Action.on, Sink.write, Device.write_of_unlimited h]

theorem drain_eq (h : b.sink.capacity = none) :
    drain b = .ok () ⟨{ b.sink with stored := b.taken }, .empty⟩ := by
  rw [drain, Action.get_bind, Action.bind_of_ok (onSink_write_eq h b.pending)]
  rfl

/-- Bytes for which there is room are kept, or go straight to the device if nothing is pending. -/
theorem keep_eq (h : b.sink.capacity = none) (hroom : capacity ≤ x.size → b.pending = .empty) :
    ∃ b', (if capacity ≤ x.size then onSink (Sink.write x)
        else modify fun b => { b with pending := b.pending ++ x } :
          Action (Buffered Device) Unit) b = .ok () b' ∧ b.Extends b' x := by
  split
  next hlarge =>
    refine ⟨_, onSink_write_eq h x, ?_, rfl, rfl⟩
    simp only [taken, hroom hlarge, ByteArray.append_empty]
  next =>
    refine ⟨_, rfl, ?_, rfl, rfl⟩
    exact ByteArray.append_assoc.symm

/-- A buffer before a device without bounds takes all bytes. -/
theorem write_eq (h : b.sink.capacity = none) (x : ByteArray) :
    ∃ b', Sink.write x b = .ok () b' ∧ b.Extends b' x := by
  have hwrite : Sink.write x b = write x b := rfl
  rw [hwrite, write, Action.get_bind]
  by_cases hfull : b.pending.size + x.size > capacity
  · simp only [if_pos hfull]
    obtain ⟨b', hb', hext⟩ := keep_eq (b := ⟨{ b.sink with stored := b.taken }, .empty⟩) (x := x) h
      fun _ => rfl
    rw [Action.bind_of_ok (drain_eq h)]
    refine ⟨b', hb', ?_, hext.capacity, hext.flushFault⟩
    rw [hext.taken, taken, ByteArray.append_empty]
  · simp only [if_neg hfull]
    refine keep_eq h fun hlarge => ?_
    rw [← ByteArray.size_eq_zero_iff]
    omega

/-- Whatever is written, a buffer before a device without bounds takes all of it. -/
theorem writeAll_eq (h : b.sink.capacity = none) (ss : List String) :
    ∃ b', Sink.writeAll ss b = .ok () b' ∧ b.Extends b' (String.join ss).toUTF8 := by
  induction ss generalizing b with
  | nil => exact ⟨b, Sink.writeAll_nil b, .refl b⟩
  | cons s ss ih =>
    obtain ⟨b₁, hb₁, hext₁⟩ := write_eq h s.toUTF8
    obtain ⟨b₂, hb₂, hext₂⟩ := ih (hext₁.capacity.trans h)
    refine ⟨b₂, ?_, ?_⟩
    · rw [Sink.writeAll_cons, Action.bind_of_ok hb₁, hb₂]
    · rw [toUTF8_join_cons]
      exact hext₁.trans hext₂

/-- A flush passes on all that has been taken, if the device can be flushed. -/
theorem flush_eq (h : b.sink.capacity = none) (hflush : b.sink.flushFault = none) :
    Sink.flush b = .ok () ⟨{ b.sink with stored := b.taken }, .empty⟩ := by
  have hb : Sink.flush b = flush b := rfl
  rw [hb, flush, Action.bind_of_ok (drain_eq h)]
  simp only [onSink, Action.on, Sink.flush, Device.flush, hflush]

/-! ## Buffers before devices without room -/

theorem onSink_write_exhausted (p x : ByteArray) :
    onSink (Sink.write x) ⟨Device.exhausted, p⟩ =
      if x.size = 0 then .ok () ⟨.exhausted, p⟩ else .error .noSpace ⟨.exhausted, p⟩ := by
  by_cases hx : x.size = 0
  · simp only [onSink, Action.on, Device.write_exhausted, if_pos hx]
  · simp only [onSink, Action.on, Device.write_exhausted, if_neg hx]

theorem drain_exhausted (p : ByteArray) :
    drain ⟨Device.exhausted, p⟩ =
      if p.size = 0 then .ok () ⟨.exhausted, .empty⟩ else .error .noSpace ⟨.exhausted, p⟩ := by
  have hsink := onSink_write_exhausted p p
  rw [drain, Action.get_bind]
  by_cases hp : p.size = 0
  · rw [if_pos hp] at hsink ⊢
    rw [Action.bind_of_ok hsink]
    rfl
  · rw [if_neg hp] at hsink ⊢
    rw [Action.bind_of_error hsink]

/-- Bytes that the buffer keeps do not meet the device, and all others are refused. -/
theorem write_exhausted (p x : ByteArray) :
    Sink.write x (⟨.exhausted, p⟩ : Buffered Device) = .ok () ⟨.exhausted, p ++ x⟩ ∨
      Sink.write x (⟨.exhausted, p⟩ : Buffered Device) = .error .noSpace ⟨.exhausted, p⟩ := by
  have hwrite : Sink.write x (⟨.exhausted, p⟩ : Buffered Device) = write x ⟨.exhausted, p⟩ := rfl
  have hcapacity : capacity = 8192 := rfl
  have hsink := onSink_write_exhausted p x
  rw [hwrite, write, Action.get_bind]
  by_cases hfull : p.size + x.size > capacity
  · right
    have hdrain := drain_exhausted p
    simp only [if_pos hfull]
    by_cases hp : p.size = 0
    · -- nothing is pending, so the bytes alone are too large to be kept
      rw [if_pos hp, ← ByteArray.size_eq_zero_iff.1 hp] at hdrain
      rw [if_neg (by omega)] at hsink
      rw [Action.bind_of_ok hdrain, if_pos (by omega), hsink]
    · rw [if_neg hp] at hdrain
      rw [Action.bind_of_error hdrain]
  · simp only [if_neg hfull]
    by_cases hlarge : capacity ≤ x.size
    · right
      rw [if_neg (by omega)] at hsink
      rw [if_pos hlarge]
      exact hsink
    · left
      rw [if_neg hlarge]
      rfl

theorem writeAll_exhausted (p : ByteArray) (ss : List String) :
    Sink.writeAll ss (⟨.exhausted, p⟩ : Buffered Device) =
        .ok () ⟨.exhausted, p ++ (String.join ss).toUTF8⟩ ∨
      ∃ q, Sink.writeAll ss (⟨.exhausted, p⟩ : Buffered Device) =
        .error .noSpace ⟨.exhausted, q⟩ := by
  induction ss generalizing p with
  | nil =>
    have hjoin : (String.join []).toUTF8 = .empty := rfl
    rw [hjoin, ByteArray.append_empty, Sink.writeAll_nil]
    exact .inl rfl
  | cons s ss ih =>
    rw [Sink.writeAll_cons, toUTF8_join_cons, ← ByteArray.append_assoc]
    rcases write_exhausted p s.toUTF8 with hwrite | hwrite
    · rw [Action.bind_of_ok hwrite]
      exact ih _
    · rw [Action.bind_of_error hwrite]
      exact .inr ⟨p, rfl⟩

/-- What is pending is refused at the flush. -/
theorem flush_exhausted {p : ByteArray} (h : p.size ≠ 0) :
    Sink.flush (⟨.exhausted, p⟩ : Buffered Device) = .error .noSpace ⟨.exhausted, p⟩ := by
  have hflush : Sink.flush (⟨.exhausted, p⟩ : Buffered Device) = flush ⟨.exhausted, p⟩ := rfl
  have hdrain := drain_exhausted p
  rw [if_neg h] at hdrain
  rw [hflush, flush, Action.bind_of_error hdrain]

/-- **Without room nothing is written**, and no later than at the flush this is found out, unless
there is nothing to write. -/
theorem writeAll_flush_exhausted {ss : List String} (h : (String.join ss).toUTF8.size ≠ 0) :
    ∃ p, (Sink.writeAll ss >>= fun _ => Sink.flush : Action (Buffered Device) Unit)
      (ofSink .exhausted) = .error .noSpace ⟨.exhausted, p⟩ := by
  rcases writeAll_exhausted .empty ss with hwrite | ⟨p, hwrite⟩
  · rw [ByteArray.empty_append] at hwrite
    exact ⟨_, (Action.bind_of_ok hwrite).trans (flush_exhausted h)⟩
  · exact ⟨p, Action.bind_of_error hwrite⟩

end Buffered

end NetlistTables.Output

import Swf.Proofs.Writer.Encodes

/-!
# Sinks that refuse

`Encodes` speaks of a sink that takes everything. In front of any other sink a run of whole writes
ends in one of two ways: the sink has taken them all, or it has refused one of them and holds those
before it, each of them whole (`Encoder.Delivery`). `Encoder.Delivers m chunks` says that `m` makes
just these writes, in this order; it is closed under sequencing, so what a failing sink is left with
follows from the writes of the parts.
-/

namespace Swf

namespace Sink

variable {s s' : Sink} {data : List UInt8}

theorem toList_of_taken (h : s.write data = (true, s')) : s'.toList = s.toList ++ data := by
  unfold write at h
  split at h
  · next hempty =>
    obtain rfl : data = [] := by simpa using hempty
    cases h
    rw [List.append_nil]
  · split at h
    · cases h
    · cases h
      simp [toList]

theorem toList_of_refused (h : s.write data = (false, s')) : s'.toList = s.toList := by
  unfold write at h
  split at h
  · cases h
  · split at h
    · cases h
      rfl
    · cases h

/-- Writing no bytes is never refused. -/
theorem ne_nil_of_refused (h : s.write data = (false, s')) : data ≠ [] := by
  rintro rfl
  cases h

end Sink

namespace Encoder

/-- How the writing of `chunks` from `w` on ends. -/
inductive Delivery (chunks : List (List UInt8)) (w : Writer) :
    EStateM.Result CodecError Writer Unit → Prop where
  /-- The sink has taken them all. -/
  | taken (w' : Writer) (hbits : w'.bitCount = 0)
      (hsink : w'.sink.toList = w.sink.toList ++ chunks.flatten) : Delivery chunks w (.ok () w')
  /-- The sink has refused one of them when it held all those before it. -/
  | refused (w' : Writer) (before : Sink) (front back : List (List UInt8)) (chunk : List UInt8)
      (hchunks : chunks = front ++ chunk :: back)
      (hbefore : before.toList = w.sink.toList ++ front.flatten)
      (hrefused : before.write chunk = (false, w'.sink)) :
      Delivery chunks w (.error (.io .sinkFull) w')

/-- The sink holds the first few of the chunks: all of them, or those before the one it has refused,
which is not empty. -/
theorem Delivery.held {chunks : List (List UInt8)} {w : Writer}
    {result : EStateM.Result CodecError Writer Unit} (h : Delivery chunks w result) :
    ∃ (count : Nat) (w' : Writer),
      w'.sink.toList = w.sink.toList ++ (chunks.take count).flatten ∧
      ((result = .ok () w' ∧ (chunks.take count).flatten = chunks.flatten) ∨
        (result = .error (.io .sinkFull) w' ∧ (chunks.take count).flatten ≠ chunks.flatten ∧
          ∃ (before : Sink) (chunk : List UInt8), chunks[count]? = some chunk ∧
            before.toList = w'.sink.toList ∧ before.write chunk = (false, w'.sink))) := by
  cases h with
  | taken w' _ hsink =>
    refine ⟨chunks.length, w', ?_, .inl ⟨rfl, ?_⟩⟩
    · rw [List.take_length, hsink]
    · rw [List.take_length]
  | refused w' before front back chunk hchunks hbefore hrefused =>
    have hfront : chunks.take front.length = front := by rw [hchunks, List.take_left]
    have hchunk : chunks[front.length]? = some chunk := by simp [hchunks]
    have hsame := Sink.toList_of_refused hrefused
    refine ⟨front.length, w', by rw [hfront, hsame, hbefore], .inr ⟨rfl, fun hwhole => ?_, before,
      chunk, hchunk, hsame.symm, hrefused⟩⟩
    -- the refused chunk is missing, and it has bytes
    rw [hfront, hchunks, List.flatten_append, List.flatten_cons] at hwhole
    have hnone := List.self_eq_append_right.mp hwhole
    exact Sink.ne_nil_of_refused hrefused (List.append_eq_nil_iff.mp hnone).1

/-- With no bits pending, `m` makes the writes `chunks` one after the other. -/
def Delivers (m : Encoder Unit) (chunks : List (List UInt8)) : Prop :=
  ∀ w : Writer, w.bitCount = 0 → Delivery chunks w (m w)

theorem Delivers.emit (data : List UInt8) : Delivers (emit data) [data] := by
  intro w hbits
  unfold Encoder.emit
  split
  · next sink hwrite =>
    refine .taken _ hbits ?_
    rw [List.flatten_singleton]
    exact Sink.toList_of_taken hwrite
  · next sink hwrite => exact .refused _ w.sink [] [] data rfl (List.append_nil _).symm hwrite

theorem Delivers.writeBytes (data : List UInt8) : Delivers (writeBytes data) [data] := by
  intro w hbits
  have halign : align w = .ok () w := by
    unfold align
    rw [get_bind, if_neg (by omega)]
    rfl
  unfold Encoder.writeBytes
  rw [bind_of_ok halign]
  exact Delivers.emit data w hbits

theorem Delivers.bind {m m' : Encoder Unit} {chunks chunks' : List (List UInt8)}
    (h : Delivers m chunks) (h' : Delivers m' chunks') :
    Delivers (m >>= fun _ => m') (chunks ++ chunks') := by
  intro w hbits
  have hfirst := h w hbits
  generalize hm : m w = result at hfirst
  cases hfirst with
  | refused w₁ before front back chunk hchunks hbefore hrefused =>
    rw [bind_of_error hm]
    exact .refused w₁ before front (back ++ chunks') chunk (by simp [hchunks]) hbefore hrefused
  | taken w₁ hbits₁ hsink =>
    have hsecond := h' w₁ hbits₁
    rw [bind_of_ok hm]
    generalize m' w₁ = result' at hsecond
    cases hsecond with
    | taken w₂ hbits₂ hsink₂ =>
      refine .taken w₂ hbits₂ ?_
      rw [hsink₂, hsink, List.append_assoc, List.flatten_append]
    | refused w₂ before front back chunk hchunks hbefore hrefused =>
      refine .refused w₂ before (chunks ++ front) back chunk ?_ ?_ hrefused
      · rw [hchunks, List.append_assoc]
      · rw [hbefore, hsink, List.append_assoc, List.flatten_append]

end Encoder

end Swf

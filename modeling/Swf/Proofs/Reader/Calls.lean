import Swf.Reader.Account

/-!
# Calls of a source

A source hands out its bytes in calls and in no other way. `Source.calls` makes a series of them:
what they hand out, and what is left. Whether a call delivers few bytes or none, asks to be made
again or fails is up to the source, and a series goes on whatever happens.

All that a reader does to its source is a series of calls, and it counts what they hand out
(`Reader.Called`). The loop that gathers the bytes of a field is one (`Source.exists_calls_gather`).
So is the payload of a record, as seen by the reader around it: every call is passed on to that one,
which knows no fields and counts for itself (`Reader.calls`).
-/

namespace Swf

namespace Source

/-- Calls for so many bytes each, one after the other: what they hand out, and the source behind
them. -/
def calls : List Nat → Source → List UInt8 × Source
  | [], s => ([], s)
  | n :: sizes, s =>
    ((s.read n).1.data ++ (calls sizes (s.read n).2).1, (calls sizes (s.read n).2).2)

theorem calls_append (sizes sizes' : List Nat) (s : Source) :
    s.calls (sizes ++ sizes') =
      ((s.calls sizes).1 ++ ((s.calls sizes).2.calls sizes').1,
        ((s.calls sizes).2.calls sizes').2) := by
  induction sizes generalizing s with
  | nil => rfl
  | cons n sizes ih =>
    simp only [List.cons_append, calls, ih, List.append_assoc]

/-- What calls hand out comes off the front of what the source held. -/
theorem remaining_calls (sizes : List Nat) (s : Source) :
    (s.calls sizes).1 ++ (s.calls sizes).2.remaining = s.remaining := by
  induction sizes generalizing s with
  | nil => rfl
  | cons n sizes ih =>
    simp only [calls, List.append_assoc, ih]
    exact remaining_read n s

/-- A delivery goes in front of what later calls hand out. -/
theorem calls_cons_of_read {n : Nat} {s s' : Source} {delivery : Delivery}
    (h : s.read n = (delivery, s')) (sizes : List Nat) :
    s.calls (n :: sizes) = (delivery.data ++ (s'.calls sizes).1, (s'.calls sizes).2) := by
  simp only [calls, h]

/-- **Gathering** is a series of calls, also where it falls short. -/
theorem exists_calls_gather (n : Nat) (s : Source) :
    ∃ sizes, s.calls sizes = ((s.gather n).1, (s.gather n).2.2) := by
  fun_induction gather n s with
  | case1 s => exact ⟨[], rfl⟩
  | case2 n s _ s' hread => exact ⟨[n], calls_cons_of_read hread []⟩
  | case3 n s _ b bs s' hread more short s'' hgather ih =>
    obtain ⟨sizes, hsizes⟩ := ih
    rw [hgather] at hsizes
    exact ⟨n :: sizes, by rw [calls_cons_of_read hread, hsizes]; rfl⟩
  | case4 n s _ s' hread ih =>
    -- nothing has come, and the same is asked for again
    obtain ⟨sizes, hsizes⟩ := ih
    exact ⟨n :: sizes, by rw [calls_cons_of_read hread, hsizes]; rfl⟩
  | case5 n s _ cause s' hread => exact ⟨[n], calls_cons_of_read hread []⟩

end Source

namespace Reader

variable {r r' r'' : Reader}

/-- `r'` is where calls of its source have led `r`, and it has counted what they handed out. -/
def Called (r r' : Reader) : Prop :=
  ∃ sizes, (r.source.calls sizes).2 = r'.source ∧
    r'.position = r.position + (r.source.calls sizes).1.length

/-- Without a call nothing is handed out. -/
theorem Called.of_eq (hsource : r'.source = r.source) (hposition : r'.position = r.position) :
    r.Called r' :=
  ⟨[], hsource.symm, hposition⟩

theorem Called.trans (h : r.Called r') (h' : r'.Called r'') : r.Called r'' := by
  obtain ⟨sizes, hsource, hposition⟩ := h
  obtain ⟨sizes', hsource', hposition'⟩ := h'
  rw [← hsource] at hsource' hposition'
  refine ⟨sizes ++ sizes', ?_, ?_⟩
  · rw [Source.calls_append]
    exact hsource'
  · rw [Source.calls_append, List.length_append]
    omega

/-- Bytes that were gathered have been counted. -/
theorem called_gather (n : Nat) (r : Reader) :
    r.Called (r.advance (r.source.gather n).1.length (r.source.gather n).2.2) := by
  obtain ⟨sizes, hsizes⟩ := Source.exists_calls_gather n r.source
  exact ⟨sizes, by rw [hsizes]; rfl, by rw [hsizes]; rfl⟩

/-- The bytes that were counted have come off the front of the source, in calls. -/
theorem Called.handedOut (h : r.Called r') :
    ∃ sizes, (r.source.calls sizes).2 = r'.source ∧
      (r.source.calls sizes).1 ++ r'.source.remaining = r.source.remaining ∧
      r'.position = r.position + (r.source.calls sizes).1.length := by
  obtain ⟨sizes, hsource, hposition⟩ := h
  have hremaining := Source.remaining_calls sizes r.source
  rw [hsource] at hremaining
  exact ⟨sizes, hsource, hremaining, hposition⟩

/-! ### The reader around another one -/

/-- The reader at a byte, behind one call for at most `n` bytes. -/
def behindCall (n : Nat) (r : Reader) : Reader :=
  ({ r with bitCount := 0 } : Reader).advance (r.source.read (r.allowance n)).1.data.length
    (r.source.read (r.allowance n)).2

/-- Within its limit a reader makes the call, and counts it whatever comes of it. -/
theorem readSome_eq (n : Nat) (r : Reader) :
    Decoder.readSome n r =
      if r.limit = some 0 then .ok [] { r with bitCount := 0 }
      else
        match (r.source.read (r.allowance n)).1 with
        | .bytes data => .ok data (r.behindCall n)
        | .interrupted => .error (.io .interrupted) (r.behindCall n)
        | .fault cause => .error (.io cause) (r.behindCall n) := rfl

theorem called_behindCall (n : Nat) (r : Reader) : r.Called (r.behindCall n) := by
  refine ⟨[r.allowance n], rfl, ?_⟩
  simp only [Source.calls, List.append_nil]
  rfl

/-- The reader that calls of these sizes are passed on to, behind all of them. A call that fails
does not keep the next one from being made. -/
def calls (sizes : List Nat) (r : Reader) : Reader :=
  sizes.foldl (fun r n => (Decoder.readSome n).after r) r

/-- Outside of any record a reader makes all calls that are passed on to it, and counts them. -/
theorem calls_of_limit_none (sizes : List Nat) (h : r.limit = none) :
    (r.calls sizes).source = (r.source.calls sizes).2 ∧
      (r.calls sizes).position = r.position + (r.source.calls sizes).1.length := by
  induction sizes generalizing r with
  | nil => exact ⟨rfl, rfl⟩
  | cons n sizes ih =>
    have hallow : r.allowance n = n := by
      unfold allowance
      rw [h, Option.getD_none, Nat.min_self]
    have hcall : (Decoder.readSome n).after r = r.behindCall n := by
      unfold Decoder.after
      rw [readSome_eq, if_neg (by simp [h])]
      cases (r.source.read (r.allowance n)).1 <;> rfl
    have hlimit : (r.behindCall n).limit = none := by
      show r.limit.map _ = none
      rw [h, Option.map_none]
    obtain ⟨hsource, hposition⟩ := ih hlimit
    have hnext : r.calls (n :: sizes) = (r.behindCall n).calls sizes := by
      rw [← hcall]
      rfl
    rw [hnext, hsource, hposition]
    simp only [behindCall, advance, hallow, Source.calls, List.length_append, Nat.add_assoc,
      and_self]

/-- **Two readers, one position.** Where calls have led one reader, the same calls lead the reader
that they are passed on to. -/
theorem Called.exists_calls (h : r.Called r') (hlimit : r.limit = none) :
    ∃ sizes, (r.calls sizes).source = r'.source ∧ (r.calls sizes).position = r'.position := by
  obtain ⟨sizes, hsource, hposition⟩ := h
  obtain ⟨hsource', hposition'⟩ := calls_of_limit_none sizes hlimit
  exact ⟨sizes, hsource'.trans hsource, hposition'.trans hposition.symm⟩

end Reader

end Swf

import Swf.Fault

/-!
# Byte sources

A source hands out bytes piece by piece. It may return fewer bytes than asked for, it may ask to
be called again, and it may fail; only a call that returns no byte at all counts as its end.

Two kinds of source stand side by side. A `Feed` holds its bytes and a schedule that says how the
coming calls behave; a feed without a schedule returns all that is asked for. An `Inflating` source
hands out the content of a compressed stream while that stream itself arrives piece by piece.

`Source.gather` is the only loop over calls: it calls until the asked amount is there, and it
ends because each call either delivers a byte or uses up one entry of a finite schedule.
-/

namespace Swf

/-- What a source does in one call. -/
inductive Delivery where
  /-- Some bytes; none at all means the end of the stream. -/
  | bytes (data : List UInt8)
  /-- The call asks to be made again. -/
  | interrupted
  /-- A final failure. -/
  | fault (cause : Fault)
deriving DecidableEq, Repr

/-- The bytes of a delivery. -/
def Delivery.data : Delivery → List UInt8
  | .bytes data => data
  | _ => []

/-- How one coming call of a feed behaves. -/
inductive Turn where
  /-- At most this many bytes are returned. -/
  | upTo (most : Nat)
  | interrupted
  | failed
deriving DecidableEq, Repr

/-- Bytes in memory, with a schedule for the coming calls. Calls after the schedule return all
that is asked for and left. -/
structure Feed where
  data : List UInt8
  schedule : List Turn := []
deriving DecidableEq, Repr

namespace Feed

/-- One call for at most `n` bytes. -/
def read (n : Nat) (f : Feed) : Delivery × Feed :=
  match f.schedule with
  | [] => (.bytes (f.data.take n), { f with data := f.data.drop n })
  | .upTo most :: rest =>
    (.bytes (f.data.take (min n most)), { data := f.data.drop (min n most), schedule := rest })
  | .interrupted :: rest => (.interrupted, { f with schedule := rest })
  | .failed :: rest => (.fault .sourceFailed, { f with schedule := rest })

end Feed

/-- What stands behind the content of a piece of a compressed stream. -/
inductive Outcome where
  /-- The piece is used up, and more of the stream has to come. -/
  | needsMore
  /-- The stream is complete. -/
  | complete
  /-- The stream turns out to be damaged. -/
  | damaged
deriving DecidableEq, Repr

/-- A piece of a compressed stream, as what decoding it yields. A run of decoding goes no further
than to the end of a window of the content, so the content comes in runs. -/
structure Piece where
  runs : List (List UInt8)
  outcome : Outcome
deriving DecidableEq, Repr

namespace Piece

/-- All content that the piece yields. -/
def content (p : Piece) : List UInt8 := p.runs.flatten

/-- Decodes the piece until `n` bytes are there: those bytes, what is ready behind them, and the
piece that is left. A call that meets damage before it has `n` bytes gives nothing at all. -/
def decode (outcome : Outcome) (n : Nat) :
    List (List UInt8) → Option (List UInt8 × List UInt8 × Piece)
  | [] => if outcome = .damaged then none else some ([], [], ⟨[], outcome⟩)
  | run :: runs =>
    if n ≤ run.length then some (run.take n, run.drop n, ⟨runs, outcome⟩)
    else (decode outcome (n - run.length) runs).map fun (data, ready, p) => (run ++ data, ready, p)

/-- Whether nothing is left that a call could still meet. -/
def isUsedUp (p : Piece) : Bool := p.runs.isEmpty && p.outcome != .damaged

end Piece

/-- How the compressed stream behind an inflating source behaves in one coming call. -/
inductive Supply where
  /-- A piece of the stream arrives. -/
  | piece (p : Piece)
  /-- Nothing arrives, so that the stream seems to be over. -/
  | nothing
  | interrupted
  | failed
deriving DecidableEq, Repr

/-- The content of a compressed stream that arrives piece by piece.

A piece is decoded only when all earlier content has been handed out, but the stream behind is
called as soon as no undecoded piece is there. So a fault of the stream can overtake content that
is ready. -/
structure Inflating where
  /-- Decoded content, not yet handed out. -/
  ready : List UInt8
  /-- The coming calls of the stream behind. -/
  supplies : List Supply
  /-- The content that is left to come when the supplies are used up or the stream seems over. -/
  last : List UInt8
  /-- What ends the content: the end of the stream, or a fault. -/
  ending : Option Fault
  /-- Whether the stream has seemed to be over. What still arrives then counts as damage. -/
  isOver : Bool := false
deriving DecidableEq, Repr

namespace Inflating

/-- One call for at most `n` bytes where nothing more arrives: content that is ready comes first,
then the last content, then the ending. -/
def readLast (n : Nat) (z : Inflating) : Delivery × Inflating :=
  if !z.ready.isEmpty then (.bytes (z.ready.take n), { z with ready := z.ready.drop n })
  else if !z.last.isEmpty then
    (.bytes (z.last.take n), { z with ready := z.last.drop n, last := [] })
  else (z.ending.elim (.bytes []) .fault, z)

/-- One call for at most `n` bytes, with these supplies in place of those of `z`. -/
def readSupplies (n : Nat) (z : Inflating) : List Supply → Delivery × Inflating
  | [] => readLast n { z with supplies := [] }
  | .nothing :: rest => readLast n { z with supplies := rest, isOver := true }
  | .interrupted :: rest => (.interrupted, { z with supplies := rest })
  | .failed :: rest => (.fault .sourceFailed, { z with supplies := rest })
  | .piece p :: rest =>
    if z.isOver then (.fault .damagedStream, { z with supplies := .piece p :: rest })
    else if !z.ready.isEmpty then
      (.bytes (z.ready.take n), { z with ready := z.ready.drop n, supplies := .piece p :: rest })
    else if p = ⟨[], .needsMore⟩ then readSupplies n z rest
    else
      match Piece.decode p.outcome n p.runs with
      | none => (.fault .damagedStream, { z with supplies := .piece p :: rest })
      | some (data, ready, p) =>
        (.bytes data, { z with ready, supplies := if p.isUsedUp then rest else .piece p :: rest })

/-- One call for at most `n` bytes. -/
def read (n : Nat) (z : Inflating) : Delivery × Inflating := readSupplies n z z.supplies

/-- The content that comes with supplies and, when they are used up or seem to be, at last. -/
def supplied (last : List UInt8) : List Supply → List UInt8
  | [] => last
  | .nothing :: _ => last
  | .piece p :: rest => p.content ++ supplied last rest
  | .interrupted :: rest => supplied last rest
  | .failed :: rest => supplied last rest

/-- All content that may still be handed out. -/
def remaining (z : Inflating) : List UInt8 :=
  z.ready ++ if z.isOver then z.last else supplied z.last z.supplies

end Inflating

/-- A byte source. -/
inductive Source where
  | feed (f : Feed)
  | inflating (z : Inflating)
deriving DecidableEq, Repr

namespace Source

/-- A source that holds `data` and returns all that is asked for. -/
def ofBytes (data : List UInt8) : Source := .feed { data := data }

/-- One call for at most `n` bytes. -/
def read (n : Nat) : Source → Delivery × Source
  | .feed f => ((f.read n).1, .feed (f.read n).2)
  | .inflating z => ((z.read n).1, .inflating (z.read n).2)

/-- All bytes that a source may still hand out. -/
def remaining : Source → List UInt8
  | .feed f => f.data
  | .inflating z => z.remaining

/-- How many coming calls are scheduled. -/
def scheduled : Source → Nat
  | .feed f => f.schedule.length
  | .inflating z => z.supplies.length

/-! ### The schedule never grows

These facts make `gather` end. -/

theorem supplies_readLast (n : Nat) (z : Inflating) : (z.readLast n).2.supplies = z.supplies := by
  simp only [Inflating.readLast]
  split
  · rfl
  · split <;> rfl

theorem readLast_ne_interrupted (n : Nat) (z : Inflating) : (z.readLast n).1 ≠ .interrupted := by
  simp only [Inflating.readLast]
  split
  · simp
  · split
    · simp
    · cases z.ending <;> simp

theorem readSupplies_le (n : Nat) (z : Inflating) (supplies : List Supply) :
    (z.readSupplies n supplies).2.supplies.length ≤ supplies.length := by
  induction supplies with
  | nil => simp [Inflating.readSupplies, supplies_readLast]
  | cons s rest ih =>
    cases s with
    | interrupted => simp [Inflating.readSupplies]
    | failed => simp [Inflating.readSupplies]
    | nothing => simp [Inflating.readSupplies, supplies_readLast]
    | piece p =>
      simp only [Inflating.readSupplies, List.length_cons]
      split
      · simp
      · split
        · simp
        · split
          · omega
          · split
            · simp
            · simp only
              split <;> simp

theorem readSupplies_lt_of_interrupted (n : Nat) (z : Inflating) (supplies : List Supply)
    (h : (z.readSupplies n supplies).1 = .interrupted) :
    (z.readSupplies n supplies).2.supplies.length < supplies.length := by
  induction supplies with
  | nil => exact (readLast_ne_interrupted _ _ h).elim
  | cons s rest ih =>
    cases s with
    | interrupted => simp [Inflating.readSupplies]
    | failed => simp [Inflating.readSupplies]
    | nothing => exact (readLast_ne_interrupted _ _ h).elim
    | piece p =>
      simp only [Inflating.readSupplies, List.length_cons] at h ⊢
      split
      · rename_i ho; simp [ho] at h
      · rename_i ho
        split
        · rename_i hr; simp [ho, hr] at h
        · rename_i hr
          split
          · rename_i hp
            simp only [ho, hr, hp] at h
            have := ih (by simpa using h)
            omega
          · rename_i hp
            rcases hd : Piece.decode p.outcome n p.runs with _ | ⟨data, ready, p'⟩ <;>
              simp [ho, hr, hp, hd] at h

/-- A call leaves at most the schedule that was there. -/
theorem scheduled_read_le (n : Nat) (s : Source) : (s.read n).2.scheduled ≤ s.scheduled := by
  cases s with
  | feed f => simp only [read, Feed.read, scheduled]; split <;> simp_all
  | inflating z => exact readSupplies_le ..

/-- An interrupted call has used up an entry of the schedule. -/
theorem scheduled_read_lt {n : Nat} {s : Source} (h : (s.read n).1 = .interrupted) :
    (s.read n).2.scheduled < s.scheduled := by
  cases s with
  | feed f => simp only [read, Feed.read, scheduled] at h ⊢; split <;> simp_all
  | inflating z => exact readSupplies_lt_of_interrupted _ _ _ h

/-- Why fewer bytes came than were asked for. -/
inductive Shortfall where
  | ended
  | fault (cause : Fault)
deriving DecidableEq, Repr

/-- Calls the source until `n` bytes have come, it ends or it fails: the bytes, what stopped them
short of `n`, and the source afterwards. Nothing is called for no bytes. -/
def gather (n : Nat) (s : Source) : List UInt8 × Option Shortfall × Source :=
  if n = 0 then ([], none, s)
  else
    match _h : s.read n with
    | (.bytes [], s') => ([], some .ended, s')
    | (.bytes (b :: bs), s') =>
      let (more, short, s'') := gather (n - (bs.length + 1)) s'
      (b :: bs ++ more, short, s'')
    | (.interrupted, s') => gather n s'
    | (.fault cause, s') => ([], some (.fault cause), s')
termination_by n + s.scheduled
decreasing_by
  -- Fewer bytes are left to ask for, and the schedule has not grown.
  · have hle := scheduled_read_le n s
    rw [_h] at hle
    simp only at hle
    omega
  -- As many bytes are left to ask for, but an entry of the schedule is used up.
  · have hlt := scheduled_read_lt (n := n) (s := s) (by rw [_h])
    rw [_h] at hlt
    simp only at hlt
    omega

/-! ### Bytes are handed out in order

What a call delivers is the front of what the source still held, and nothing is lost. -/

/-- Decoding a piece loses none of its content. -/
theorem content_of_decode {outcome : Outcome} {n : Nat} {runs : List (List UInt8)}
    {data ready : List UInt8} {p : Piece}
    (h : Piece.decode outcome n runs = some (data, ready, p)) :
    data ++ ready ++ p.content = runs.flatten := by
  induction runs generalizing n data ready p with
  | nil =>
    simp only [Piece.decode] at h
    split at h
    · simp at h
    · obtain ⟨rfl, rfl, rfl⟩ : [] = data ∧ [] = ready ∧ (⟨[], outcome⟩ : Piece) = p := by
        simpa using h
      simp [Piece.content]
  | cons run runs ih =>
    simp only [Piece.decode] at h
    split at h
    · obtain ⟨rfl, rfl, rfl⟩ : run.take n = data ∧ run.drop n = ready ∧
          (⟨runs, outcome⟩ : Piece) = p := by simpa using h
      simp [Piece.content]
    · obtain ⟨⟨more, ready', p'⟩, hmore, heq⟩ := Option.map_eq_some_iff.1 h
      obtain ⟨rfl, rfl, rfl⟩ : run ++ more = data ∧ ready' = ready ∧ p' = p := by
        simpa using heq
      simp [← ih hmore]

theorem content_of_isUsedUp {p : Piece} (h : p.isUsedUp = true) : p.content = [] := by
  simp only [Piece.isUsedUp, Bool.and_eq_true, List.isEmpty_iff] at h
  simp [Piece.content, h.1]

theorem remaining_readLast (n : Nat) (z : Inflating) (h : z.isOver = true ∨ z.supplies = []) :
    (z.readLast n).1.data ++ (z.readLast n).2.remaining = z.ready ++ z.last := by
  have hlast : ∀ last, (if z.isOver then last else Inflating.supplied last z.supplies) = last := by
    rcases h with h | h <;> simp [h, Inflating.supplied]
  simp only [Inflating.readLast]
  split
  · simp [Delivery.data, Inflating.remaining, hlast, ← List.append_assoc]
  · split
    · simp_all [Delivery.data, Inflating.remaining]
    · cases he : z.ending <;> simp_all [Delivery.data, Inflating.remaining]

theorem remaining_readSupplies (n : Nat) (z : Inflating) (supplies : List Supply) :
    (z.readSupplies n supplies).1.data ++ (z.readSupplies n supplies).2.remaining =
      ({ z with supplies } : Inflating).remaining := by
  induction supplies with
  | nil =>
    rw [Inflating.readSupplies, remaining_readLast _ _ (.inr rfl)]
    simp [Inflating.remaining, Inflating.supplied]
  | cons s rest ih =>
    cases s with
    | interrupted => rfl
    | failed => rfl
    | nothing =>
      rw [Inflating.readSupplies, remaining_readLast _ _ (.inl rfl)]
      simp [Inflating.remaining, Inflating.supplied]
    | piece p =>
      simp only [Inflating.readSupplies]
      split
      · simp [Delivery.data]
      · rename_i ho
        split
        · simp [Delivery.data, Inflating.remaining, ← List.append_assoc]
        · rename_i hr
          have hr' : z.ready = [] := by simpa using hr
          split
          · rename_i hp
            rw [ih]
            simp [Inflating.remaining, Inflating.supplied, hp, Piece.content]
          · split
            · simp [Delivery.data]
            · rename_i data ready p' hd
              have hc := content_of_decode hd
              have hrest : Inflating.supplied z.last
                  (if p'.isUsedUp then rest else .piece p' :: rest) =
                  p'.content ++ Inflating.supplied z.last rest := by
                split
                · rename_i hu; simp [content_of_isUsedUp hu]
                · rfl
              simp [Delivery.data, Inflating.remaining, Inflating.supplied, ho, hr', hrest,
                Piece.content, ← hc]

theorem remaining_read (n : Nat) (s : Source) :
    (s.read n).1.data ++ (s.read n).2.remaining = s.remaining := by
  cases s with
  | feed f => simp only [read, Feed.read, remaining]; split <;> simp [Delivery.data]
  | inflating z => exact remaining_readSupplies ..

/-- Gathering takes its bytes off the front of what the source holds. -/
theorem remaining_gather (n : Nat) (s : Source) :
    (s.gather n).1 ++ (s.gather n).2.2.remaining = s.remaining := by
  fun_induction gather n s with
  | case1 => simp
  | case2 n s _ s' h =>
    have := remaining_read n s
    rw [h] at this
    simpa [Delivery.data] using this
  | case3 n s _ b bs s' h more short s'' hg ih =>
    have := remaining_read n s
    rw [h] at this
    simp only [hg] at ih
    simp only [Delivery.data] at this
    simp [← this, ← ih]
  | case4 n s _ s' h ih =>
    have := remaining_read n s
    rw [h] at this
    simpa [Delivery.data, ih] using this
  | case5 n s _ cause s' h =>
    have := remaining_read n s
    rw [h] at this
    simpa [Delivery.data] using this

end Source

end Swf

import Swf.Proofs.Source
import Swf.Zlib.Body

/-!
# What a reader may assume of a compressed body

A body that is compressed reaches the reader through a decoder, and all that matters of the encoder
is that the decoder undoes it: the content comes back, and no fault stands behind it. Where that is
so, a file that is read from memory has a steady source for its body, whichever form it is in.
-/

namespace Swf

namespace Zlib

/-- Decoding the stream hands out exactly this content, without a fault. -/
def Delivers (stream content : List UInt8) : Prop :=
  (inflate stream).delivered = content ∧ (inflate stream).fault = none

/-- The decoder delivers exactly the bytes that the encoder was given. -/
def Inverts (compress : List UInt8 → List UInt8) : Prop :=
  ∀ content, Delivers (compress content) content

end Zlib

namespace Source

/-- The content of a stream that is there as a whole. -/
theorem inflate_feed {stream content : List UInt8} (h : Zlib.Delivers stream content) :
    (feed { data := stream }).inflate =
      .inflating { ready := [], supplies := [], last := content, ending := none } := by
  obtain ⟨hcontent, hfault⟩ := h
  have hplan : Inflating.conclude ([] ++ stream) 0 = (content, none) := by
    simp only [Inflating.conclude, List.nil_append, hcontent, hfault, List.drop_zero]
  unfold inflate Inflating.ofFeed
  simp only [Inflating.plan, hplan]
  rfl

theorem steady_inflate {stream content : List UInt8} (h : Zlib.Delivers stream content) :
    (feed { data := stream }).inflate.Steady := by
  rw [inflate_feed h]
  exact ⟨rfl, rfl⟩

theorem remaining_inflate {stream content : List UInt8} (h : Zlib.Delivers stream content) :
    (feed { data := stream }).inflate.remaining = content := by
  rw [inflate_feed h]
  rfl

end Source

end Swf

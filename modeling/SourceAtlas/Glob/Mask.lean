import SourceAtlas.Glob.Bytes

/-! Masks of a byte text. A mask marks some of the ends of the text: it has one flag for each, from the
whole text down to the empty end. -/
namespace SourceAtlas.Glob

abbrev Mask := List Bool

namespace Mask

/-- The mask with the whole text only. -/
def whole (text : Bytes) : Mask := true :: text.map fun _ => false

/-- Whether the empty end is marked. -/
def complete (mask : Mask) : Bool := mask.getLast?.getD false

def union (mask other : Mask) : Mask := mask.zipWith (· || ·) other

/-- The ends that are left of the marked ones by one byte that passes a test. -/
def step (test : UInt8 → Bool) (text : Bytes) (mask : Mask) : Mask :=
  false :: text.zipWith (fun b marked => marked && test b) mask

/-- Marks the ends that bytes which pass a test lead to from a marked one. `reached` says that the
first end is among these. -/
def spreadFrom (test : UInt8 → Bool) (reached : Bool) : Bytes → Mask → Mask
  | b :: text, marked :: mask =>
    (reached || marked) :: spreadFrom test ((reached || marked) && test b) text mask
  | _, mask => mask.map (reached || ·)

/-- The marked ends, and all that are left of these by bytes that pass a test. -/
def spread (test : UInt8 → Bool) (text : Bytes) (mask : Mask) : Mask :=
  spreadFrom test false text mask

/-- The ends that are left of the marked ones by given bytes. -/
def stepAll (bytes text : Bytes) (mask : Mask) : Mask :=
  bytes.foldl (fun mask b => step (· == b) text mask) mask

/-- The ends that are left of the marked ones by a separator. -/
def stepSeparator (text : Bytes) (mask : Mask) : Mask := step (· == separator) text mask

/-- The marked ends, and all ends of these. -/
def spreadAll (text : Bytes) (mask : Mask) : Mask := spread (fun _ => true) text mask

end Mask

end SourceAtlas.Glob

/-
The sizes and the functions of `utils`.

`fill_string` is what every text goes through before it is sent: a message, or a
name in a request, is its bytes and then NULs up to a fixed size.
-/
import Mbroker.CMemory

namespace Mbroker

/-- `PIPE_NAME_SIZE`. -/
def pipeNameSize : Nat := 256

/-- `BOX_NAME_SIZE`. -/
def boxNameSize : Nat := 32

/-- `MESSAGE_SIZE`. -/
def messageSize : Nat := 1024

/-- `MAX_BOXES`. -/
def maxBoxes : Nat := 64

/-- `fill_string`: NULs from the end of the string on. -/
def fillString (size : Nat) (array : List UInt8) : List UInt8 :=
  let len := (CString.ofBuffer array).strlen
  array.take len ++ List.replicate (size - len) 0

/-- A string in an array of `size` bytes, the rest of which is NULs. -/
def padded (size : Nat) (q : CString) : List UInt8 :=
  q.bytes ++ List.replicate (size - q.strlen) 0

theorem fillString_terminated (size : Nat) (q : CString) (rest : List UInt8) :
    fillString size (q.bytes ++ 0 :: rest) = padded size q := by
  rw [fillString, CString.ofBuffer_terminated, padded]
  simp [CString.strlen]

theorem length_padded {size : Nat} {q : CString} (h : q.strlen ≤ size) :
    (padded size q).length = size := by
  simp only [padded, List.length_append, List.length_replicate, CString.strlen] at *
  omega

/-- A padded string is read back. -/
theorem ofBuffer_padded {size : Nat} {q : CString} (h : q.strlen < size) :
    CString.ofBuffer (padded size q) = q := by
  obtain ⟨k, hk⟩ : ∃ k, size - q.strlen = k + 1 := ⟨size - q.strlen - 1, by omega⟩
  rw [padded, hk, List.replicate_succ, CString.ofBuffer_terminated]

end Mbroker

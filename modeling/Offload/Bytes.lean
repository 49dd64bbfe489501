/-!
Byte strings: overwriting the front of a buffer, cutting a window out of one, and little-endian
words. Main statements: an overlay that fits keeps the length of what lies below it, and a word that
fits its width reads back as the number it was written from, alone or one of many.
-/

namespace Offload

abbrev Bytes := List UInt8

/-- One more than the largest number that a 64-bit word holds. -/
def wordLimit : Nat := 0x10000000000000000

namespace Bytes

/-- `data` laid over the front of `buffer`. -/
def overlay (data buffer : Bytes) : Bytes :=
  data ++ buffer.drop data.length

/-- `data` laid over `buffer` from `offset` on. -/
def overlayAt (offset : Nat) (data buffer : Bytes) : Bytes :=
  buffer.take offset ++ overlay data (buffer.drop offset)

/-- The `length` bytes of `buffer` from `offset` on, fewer when it ends before. -/
def window (offset length : Nat) (buffer : Bytes) : Bytes :=
  (buffer.drop offset).take length

def zeros (length : Nat) : Bytes :=
  List.replicate length 0

theorem overlay_length {data buffer : Bytes} (h : data.length ≤ buffer.length) :
    (overlay data buffer).length = buffer.length := by
  simp [overlay]
  omega

theorem overlayAt_length {offset : Nat} {data buffer : Bytes}
    (h : offset + data.length ≤ buffer.length) :
    (overlayAt offset data buffer).length = buffer.length := by
  simp [overlayAt, overlay]
  omega

theorem window_length {offset length : Nat} {buffer : Bytes} (h : offset + length ≤ buffer.length) :
    (window offset length buffer).length = length := by
  simp [window]
  omega

@[simp]
theorem zeros_length (length : Nat) : (zeros length).length = length := by
  simp [zeros]

/-- How many numbers fit a word of `width` bytes. -/
def bound : (width : Nat) → Nat
  | 0 => 1
  | width + 1 => 256 * bound width

/-- The lowest `width` bytes of `n`, the least significant first. -/
def word : (width n : Nat) → Bytes
  | 0, _ => []
  | width + 1, n => UInt8.ofNat n :: word width (n / 256)

/-- The number whose little-endian bytes these are. -/
def value : Bytes → Nat
  | [] => 0
  | b :: rest => b.toNat + 256 * value rest

@[simp]
theorem word_length (width n : Nat) : (word width n).length = width := by
  induction width generalizing n with
  | zero => rfl
  | succ width ih => simp [word, ih]

theorem value_word {width n : Nat} (h : n < bound width) : value (word width n) = n := by
  induction width generalizing n with
  | zero => simp [bound] at h; simp [word, value, h]
  | succ width ih =>
    have hdiv : n / 256 < bound width := by
      simp only [bound] at h
      omega
    simp [word, value, ih hdiv]
    omega

/-- Cuts `bytes` into words of `width`; a shorter last piece stands for itself, as if zeros followed. -/
def words (width : Nat) (bytes : Bytes) : List Nat :=
  if _h : width = 0 ∨ bytes = [] then []
  else value (bytes.take width) :: words width (bytes.drop width)
termination_by bytes.length
decreasing_by
  have : 0 < bytes.length := List.length_pos_iff.mpr (fun e => _h (Or.inr e))
  simp
  omega

theorem words_flatMap_word {width : Nat} (hw : 0 < width) {numbers : List Nat}
    (h : ∀ n ∈ numbers, n < bound width) : words width (numbers.flatMap (word width)) = numbers := by
  induction numbers with
  | nil => simp [words]
  | cons n numbers ih =>
    have hn : value (word width n) = n := value_word (h n (by simp))
    have hrest := ih fun k hk => h k (by simp [hk])
    have hne : word width n ≠ [] := List.ne_nil_of_length_pos (by simpa using hw)
    rw [words, dif_neg (by simp [hne]; omega)]
    simp [hn, hrest]

end Bytes
end Offload

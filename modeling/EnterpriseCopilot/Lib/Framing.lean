import Mathlib.Algebra.Order.Group.Nat
import Mathlib.Data.List.Basic
import Mathlib.Tactic.Ring

/-! Byte streams of chunks, each after its length in a fixed number of bytes, up to an empty one. -/

namespace EnterpriseCopilot.Lib

/-- The last `w` bytes of `n`, the most significant first. -/
def bigEndian : Nat → Nat → List UInt8
  | 0, _ => []
  | w + 1, n => bigEndian w (n / 256) ++ [UInt8.ofNat n]

def ofBigEndian (bytes : List UInt8) : Nat := bytes.foldl (fun n b => 256 * n + b.toNat) 0

@[simp] theorem length_bigEndian (w n : Nat) : (bigEndian w n).length = w := by
  induction w generalizing n with
  | zero => rfl
  | succ w ih => rw [bigEndian, List.length_append, ih, List.length_singleton]

theorem ofBigEndian_bigEndian {w n : Nat} (h : n < 256 ^ w) : ofBigEndian (bigEndian w n) = n := by
  induction w generalizing n with
  | zero =>
    rw [pow_zero, Nat.lt_one_iff] at h
    rw [h]
    rfl
  | succ w ih =>
    have hdiv : n / 256 < 256 ^ w := Nat.div_lt_of_lt_mul (by rwa [mul_comm, ← pow_succ])
    have hinit := ih hdiv
    rw [ofBigEndian] at hinit ⊢
    rw [bigEndian, List.foldl_append, hinit, List.foldl_cons, List.foldl_nil, UInt8.toNat_ofNat']
    omega

section Pieces

variable {α : Type} {size : Nat} {l piece : List α}

/-- The list from one multiple of the size to the next. -/
def pieces (size : Nat) (l : List α) : List (List α) :=
  (List.range ((l.length + size - 1) / size)).map fun i => (l.drop (i * size)).take size

theorem flatten_take_drop (n : Nat) :
    ((List.range n).map fun i => (l.drop (i * size)).take size).flatten = l.take (n * size) := by
  induction n with
  | zero => simp
  | succ n ih => rw [List.range_succ, List.map_append, List.flatten_append, ih, Nat.succ_mul, List.take_add]; simp

theorem flatten_pieces (h : 0 < size) : (pieces size l).flatten = l := by
  rw [pieces, flatten_take_drop, List.take_of_length_le]
  have hlast := Nat.lt_div_mul_add (a := l.length + size - 1) h
  omega

theorem piece_ne_nil (h : piece ∈ pieces size l) : piece ≠ [] := by
  obtain ⟨i, hi, rfl⟩ := List.mem_map.mp h
  rw [List.mem_range] at hi
  have hsize : 0 < size := by
    rcases Nat.eq_zero_or_pos size with rfl | hpos
    · rw [Nat.div_zero] at hi
      exact absurd hi (Nat.not_lt_zero i)
    · exact hpos
  have hbefore := (Nat.le_div_iff_mul_le hsize).mp (Nat.succ_le_of_lt hi)
  rw [Nat.succ_mul] at hbefore
  intro hnil
  rw [List.take_eq_nil_iff, List.drop_eq_nil_iff] at hnil
  omega

theorem length_piece_le (h : piece ∈ pieces size l) : piece.length ≤ size := by
  obtain ⟨i, -, rfl⟩ := List.mem_map.mp h
  exact List.length_take_le _ _

end Pieces

/-- A chunk after its length in `w` bytes. -/
def frame (w : Nat) (chunk : List UInt8) : List UInt8 := bigEndian w chunk.length ++ chunk

/-- What a reader waits for, and the bytes of the chunks so far. -/
inductive Reader
  | length (header data : List UInt8)
  | chunk (left : Nat) (data : List UInt8)
  | ended (data : List UInt8)
  deriving DecidableEq

namespace Reader

variable {w : Nat} {data header sent : List UInt8}

/-- One byte; `chunk left` waits for `left + 1` of them. -/
def receive (w : Nat) : Reader → UInt8 → Reader
  | length header data, b =>
    if header.length + 1 < w then length (header ++ [b]) data
    else match ofBigEndian (header ++ [b]) with
      | 0 => ended data
      | n + 1 => chunk n data
  | chunk 0 data, b => length [] (data ++ [b])
  | chunk (n + 1) data, b => chunk n (data ++ [b])
  | ended data, _ => ended data

/-- The last byte of a length settles what follows. -/
theorem receive_length {bytes : List UInt8} (hne : bytes ≠ []) (h : header.length + bytes.length = w) :
    bytes.foldl (receive w) (length header data) = match ofBigEndian (header ++ bytes) with
      | 0 => ended data
      | n + 1 => chunk n data := by
  induction bytes generalizing header with
  | nil => exact absurd rfl hne
  | cons b bytes ih =>
    rw [List.length_cons] at h
    rw [List.foldl_cons]
    cases bytes with
    | nil => rw [receive, if_neg (by rw [List.length_nil] at h; omega)]; rfl
    | cons c bytes =>
      rw [receive, if_pos (by rw [List.length_cons] at h; omega), ih (by simp) (by simp at h ⊢; omega),
        List.append_assoc, List.singleton_append]

theorem receive_chunk {n : Nat} (h : sent.length = n + 1) :
    sent.foldl (receive w) (.chunk n data) = length [] (data ++ sent) := by
  induction sent generalizing n data with
  | nil => cases h
  | cons b sent ih =>
    rw [List.foldl_cons]
    cases n with
    | zero =>
      obtain rfl := List.length_eq_zero_iff.mp (Nat.succ.inj h)
      rfl
    | succ n => rw [receive, ih (Nat.succ.inj h), List.append_assoc, List.singleton_append]

theorem receive_frame (hne : sent ≠ []) (h : sent.length < 256 ^ w) :
    (frame w sent).foldl (receive w) (length [] data) = length [] (data ++ sent) := by
  have hw : w ≠ 0 := by
    rintro rfl
    exact hne (List.length_eq_zero_iff.mp (Nat.lt_one_iff.mp h))
  have hheader : bigEndian w sent.length ≠ [] := by
    intro hnil
    exact hw (by simpa using congrArg List.length hnil)
  obtain ⟨n, hn⟩ := Nat.exists_eq_succ_of_ne_zero (mt List.length_eq_zero_iff.mp hne)
  rw [frame, List.foldl_append, receive_length hheader (by simp), List.nil_append, ofBigEndian_bigEndian h, hn]
  exact receive_chunk hn

/-- The chunks arrive as they were sent. -/
theorem receive_frames {chunks : List (List UInt8)} (h : ∀ chunk ∈ chunks, chunk ≠ [] ∧ chunk.length < 256 ^ w) :
    (chunks.flatMap (frame w)).foldl (receive w) (length [] data) = length [] (data ++ chunks.flatten) := by
  induction chunks generalizing data with
  | nil => simp
  | cons chunk chunks ih =>
    obtain ⟨⟨hne, hshort⟩, hrest⟩ := List.forall_mem_cons.mp h
    rw [List.flatMap_cons, List.foldl_append, receive_frame hne hshort, ih hrest, List.flatten_cons, List.append_assoc]

/-- An empty chunk is the end. -/
theorem receive_end (hw : w ≠ 0) : (frame w []).foldl (receive w) (length [] data) = ended data := by
  have hheader : bigEndian w 0 ≠ [] := by
    intro hnil
    exact hw (by simpa using congrArg List.length hnil)
  rw [frame, List.append_nil, List.length_nil, receive_length hheader (by simp), List.nil_append,
    ofBigEndian_bigEndian (Nat.pow_pos (by decide))]

end Reader

end EnterpriseCopilot.Lib

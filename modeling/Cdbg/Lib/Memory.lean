import Mathlib.Tactic

/-!
Byte memory over 64-bit addresses, with little-endian reads and writes of any
number of bytes. Addresses wrap around at `2^64`.
-/

/-- An address. -/
abbrev Addr := BitVec 64

/-- A memory gives the byte at every address. -/
abbrev Memory := Addr → BitVec 8

namespace Memory

/-- The `n` addresses from `a` on. -/
def span (a : Addr) (n : ℕ) : Set Addr := {x | (x - a).toNat < n}

/-- The `n` bytes at `a` as a little-endian number. -/
def read (m : Memory) (a : Addr) : ℕ → ℕ
  | 0 => 0
  | n + 1 => (m a).toNat + 256 * read m (a + 1) n

/-- Store the low `n` bytes of `v` at `a`, little-endian. -/
def write (m : Memory) (a : Addr) (n v : ℕ) : Memory := fun x =>
  if (x - a).toNat < n then BitVec.ofNat 8 (v / 256 ^ (x - a).toNat) else m x

lemma mem_span {a x : Addr} {n : ℕ} : x ∈ span a n ↔ (x - a).toNat < n := Iff.rfl

instance (a : Addr) (n : ℕ) (x : Addr) : Decidable (x ∈ span a n) :=
  inferInstanceAs (Decidable ((x - a).toNat < n))

lemma add_mem_span {a : Addr} {k n : ℕ} (hk : k < n) :
    a + BitVec.ofNat 64 k ∈ span a n := by
  rw [mem_span, show a + BitVec.ofNat 64 k - a = BitVec.ofNat 64 k by
    rw [BitVec.add_comm, BitVec.add_sub_cancel]]
  refine lt_of_le_of_lt ?_ hk
  rw [BitVec.toNat_ofNat]
  exact Nat.mod_le _ _

/-- An address of a span is its start plus its offset. -/
lemma eq_add_offset (a x : Addr) : a + BitVec.ofNat 64 (x - a).toNat = x := by
  rw [BitVec.ofNat_toNat, BitVec.setWidth_eq, BitVec.add_comm, BitVec.sub_add_cancel]

lemma forall_mem_span {a : Addr} {n : ℕ} {P : Addr → Prop} :
    (∀ x ∈ span a n, P x) ↔ ∀ i < n, P (a + BitVec.ofNat 64 i) := by
  refine ⟨fun h i hi => h _ (add_mem_span hi), fun h x hx => ?_⟩
  rw [← eq_add_offset a x]
  exact h _ hx

instance (a : Addr) (n : ℕ) (P : Addr → Prop) [DecidablePred P] :
    Decidable (∀ x ∈ span a n, P x) := decidable_of_iff _ forall_mem_span.symm

@[simp] lemma write_of_mem {m : Memory} {a x : Addr} {n v : ℕ} (h : x ∈ span a n) :
    write m a n v x = BitVec.ofNat 8 (v / 256 ^ (x - a).toNat) := if_pos h

@[simp] lemma write_of_notMem {m : Memory} {a x : Addr} {n v : ℕ} (h : x ∉ span a n) :
    write m a n v x = m x := if_neg h

/-- The bytes of a read are the bytes of the memory. -/
lemma byte_read (m : Memory) : ∀ (n k : ℕ) (a : Addr), k < n →
    BitVec.ofNat 8 (read m a n / 256 ^ k) = m (a + BitVec.ofNat 64 k)
  | 0, k, _, h => absurd h (Nat.not_lt_zero k)
  | n + 1, 0, a, _ => by
      rw [read, pow_zero, Nat.div_one]
      apply BitVec.eq_of_toNat_eq
      have hb := (m a).isLt
      simp only [BitVec.toNat_ofNat, BitVec.ofNat_eq_ofNat, BitVec.add_zero]
      omega
  | n + 1, k + 1, a, h => by
      have ih := byte_read m n k (a + 1) (by omega)
      have hb := (m a).isLt
      have hdiv : read m a (n + 1) / 256 ^ (k + 1) = read m (a + 1) n / 256 ^ k := by
        rw [read, pow_succ', ← Nat.div_div_eq_div_mul]
        congr 1
        omega
      rw [hdiv, ih]
      congr 1
      rw [BitVec.add_assoc]
      congr 1
      apply BitVec.eq_of_toNat_eq
      simp only [BitVec.ofNat_eq_ofNat, BitVec.toNat_add, BitVec.toNat_ofNat]
      omega

/-- Writing back what was read restores the bytes that were read. -/
lemma write_read_of_mem {m m' : Memory} {a x : Addr} {n : ℕ} (h : x ∈ span a n) :
    write m' a n (read m a n) x = m x := by
  rw [write_of_mem h, byte_read m n _ a h, eq_add_offset]

/-- A read depends on the bytes of its span only. -/
lemma read_congr {m m' : Memory} {a : Addr} {n : ℕ} (h : ∀ x ∈ span a n, m x = m' x) :
    read m a n = read m' a n := by
  have key : ∀ (n k : ℕ), (∀ j, j < n → m (a + BitVec.ofNat 64 (k + j))
      = m' (a + BitVec.ofNat 64 (k + j))) →
      read m (a + BitVec.ofNat 64 k) n = read m' (a + BitVec.ofNat 64 k) n := by
    intro n
    induction n with
    | zero => intro k _; rfl
    | succ n ih =>
        intro k hk
        have h1 : a + BitVec.ofNat 64 k + 1 = a + BitVec.ofNat 64 (k + 1) := by
          rw [BitVec.add_assoc]
          congr 1
          apply BitVec.eq_of_toNat_eq
          simp
        rw [read, read, h1, ih (k + 1) fun j hj => by
          rw [show k + 1 + j = k + (j + 1) by omega]
          exact hk (j + 1) (by omega)]
        rw [show m (a + BitVec.ofNat 64 k) = m' (a + BitVec.ofNat 64 k) from hk 0 (by omega)]
  have h0 := key n 0 fun j hj => by
    rw [Nat.zero_add]
    exact h _ (add_mem_span hj)
  simpa using h0

/-- A read of bytes that are those of a number gives its low digits. -/
lemma read_of_bytes {m : Memory} {a : Addr} {v : ℕ} : ∀ n k : ℕ,
    (∀ j < n, m (a + BitVec.ofNat 64 (k + j)) = BitVec.ofNat 8 (v / 256 ^ (k + j))) →
      read m (a + BitVec.ofNat 64 k) n = v / 256 ^ k % 256 ^ n
  | 0, k, _ => by rw [read, pow_zero, Nat.mod_one]
  | n + 1, k, h => by
      have h1 : a + BitVec.ofNat 64 k + 1 = a + BitVec.ofNat 64 (k + 1) := by
        rw [BitVec.add_assoc]
        congr 1
        apply BitVec.eq_of_toNat_eq
        simp
      have ih := read_of_bytes n (k + 1) fun j hj => by
        rw [show k + 1 + j = k + (j + 1) by omega]
        exact h (j + 1) (by omega)
      have h0 : (m (a + BitVec.ofNat 64 k)).toNat = v / 256 ^ k % 256 := by
        rw [show m (a + BitVec.ofNat 64 k) = _ from h 0 (by omega)]
        simp
      rw [read, h1, ih, h0, pow_succ 256 k, ← Nat.div_div_eq_div_mul, pow_succ' 256 n,
        Nat.mod_mul]

lemma read_lt (m : Memory) : ∀ (n : ℕ) (a : Addr), read m a n < 256 ^ n
  | 0, _ => by simp [read]
  | n + 1, a => by
      have ih := read_lt m n (a + 1)
      have hb := (m a).isLt
      rw [read, pow_succ]
      omega

/-- A read gives a number exactly if its bytes are stored and there is no more of it. -/
lemma read_eq_iff {m : Memory} {a : Addr} {n v : ℕ} :
    m.read a n = v ↔
      v < 256 ^ n ∧ ∀ i < n, m (a + BitVec.ofNat 64 i) = BitVec.ofNat 8 (v / 256 ^ i) := by
  constructor
  · rintro rfl
    exact ⟨read_lt m n a, fun i hi => (byte_read m n i a hi).symm⟩
  · rintro ⟨hlt, hbytes⟩
    have h := read_of_bytes (m := m) (a := a) (v := v) n 0 fun j hj => by
      rw [Nat.zero_add]
      exact hbytes j hj
    simpa [Nat.mod_eq_of_lt hlt] using h

/-- Numbers that agree modulo `256 ^ n` have the same low bytes. -/
lemma byte_congr {u v n i : ℕ} (h : u % 256 ^ n = v % 256 ^ n) (hi : i < n) :
    BitVec.ofNat 8 (u / 256 ^ i) = BitVec.ofNat 8 (v / 256 ^ i) := by
  have hdvd : 256 ^ i * 256 ∣ 256 ^ n := by
    rw [← pow_succ]
    exact pow_dvd_pow 256 hi
  have key : ∀ x : ℕ, x / 256 ^ i % 256 = x % 256 ^ n % (256 ^ i * 256) / 256 ^ i := by
    intro x
    rw [Nat.mod_mod_of_dvd x hdvd, Nat.mod_mul_right_div_self]
  apply BitVec.eq_of_toNat_eq
  simp only [BitVec.toNat_ofNat]
  rw [show 2 ^ 8 = 256 from rfl, key, key, h]

/-- Reading what was just written. -/
lemma read_write_self (m : Memory) (a : Addr) {n : ℕ} (hn : n ≤ 2 ^ 64) (v : ℕ) :
    read (write m a n v) a n = v % 256 ^ n := by
  have h := read_of_bytes (m := write m a n v) (a := a) (v := v) n 0 fun j hj => by
    have hoff : (a + BitVec.ofNat 64 j - a).toNat = j := by
      rw [BitVec.add_comm, BitVec.add_sub_cancel, BitVec.toNat_ofNat]
      exact Nat.mod_eq_of_lt (by omega)
    rw [Nat.zero_add, write_of_mem (add_mem_span hj), hoff]
  simpa using h

/-- The `n` bytes at `a` and the `k` bytes at `b` have no byte in common. -/
def Apart (a : Addr) (n : ℕ) (b : Addr) (k : ℕ) : Prop :=
  n ≤ (b - a).toNat ∧ k ≤ (a - b).toNat

instance (a : Addr) (n : ℕ) (b : Addr) (k : ℕ) : Decidable (Apart a n b k) :=
  inferInstanceAs (Decidable (_ ∧ _))

lemma Apart.symm {a b : Addr} {n k : ℕ} (h : Apart a n b k) : Apart b k a n := ⟨h.2, h.1⟩

lemma Apart.notMem {a b : Addr} {n k : ℕ} (h : Apart a n b k) {x : Addr} (hx : x ∈ span a n) :
    x ∉ span b k := by
  rw [mem_span] at hx ⊢
  obtain ⟨h1, h2⟩ := h
  simp only [BitVec.toNat_sub] at *
  omega

/-- A write leaves a read elsewhere alone. -/
lemma read_write_of_apart {m : Memory} {a b : Addr} {n k : ℕ} (h : Apart a n b k) (v : ℕ) :
    read (write m b k v) a n = read m a n :=
  read_congr fun _ hx => write_of_notMem (h.notMem hx)

end Memory

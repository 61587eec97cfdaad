/-
  Foundation/Reader.lean --- readers of binary formats: functions that take a value off
  the front of their input or fail.

  `Reads r encoding b` says that `r` takes exactly `encoding` and gives `b`, whatever
  follows.  In this form a format is put together from its fields: `Reads.bind` joins
  the encodings of two readers in a row.  A reader that is `Local` takes nothing but such
  encodings.
-/
import BuildYourOwnRedis.Foundation.Bytes

set_option autoImplicit false

namespace BuildYourOwnRedis.Foundation

/-- A reader of symbols `α` with faults `ε` and values `β`. -/
abbrev Reader (α ε β : Type) : Type := StateT (List α) (Except ε) β

namespace Reader

variable {α ε β γ : Type}

/-- The reader takes exactly this encoding, whatever follows, and gives this value.  Stated
with an arbitrary rest, so that readers of parts compose to a reader of the whole. -/
def Reads (r : Reader α ε β) (encoding : List α) (b : β) : Prop :=
  ∀ rest, r.run (encoding ++ rest) = .ok (b, rest)

/-- Reading never makes the input longer.  This and `Consumes` are what a loop over a reader
needs to end. -/
def Shrinks (r : Reader α ε β) : Prop :=
  ∀ input b rest, r.run input = .ok (b, rest) → rest.length ≤ input.length

/-- A value costs at least one symbol of the input. -/
def Consumes (r : Reader α ε β) : Prop :=
  ∀ input b rest, r.run input = .ok (b, rest) → rest.length < input.length

/-- What is taken stands in front, and nothing behind it matters: the value and the bytes it
costs are those of the front alone. -/
def Local (r : Reader α ε β) : Prop :=
  ∀ input b rest, r.run input = .ok (b, rest) → ∃ front, input = front ++ rest ∧ Reads r front b

/-- What is taken and given does not change when symbols follow. -/
def Steady (r : Reader α ε β) : Prop :=
  ∀ input b rest, r.run input = .ok (b, rest) →
    ∀ more, r.run (input ++ more) = .ok (b, rest ++ more)

theorem run_bind (r : Reader α ε β) (f : β → Reader α ε γ) (input : List α) :
    (r >>= f).run input =
      match r.run input with
      | .ok (b, rest) => (f b).run rest
      | .error e => .error e := by
  rw [StateT.run_bind]
  cases r.run input <;> rfl

theorem reads_pure (b : β) : Reads (pure b : Reader α ε β) [] b :=
  fun _ => rfl

theorem Reads.bind {r : Reader α ε β} {f : β → Reader α ε γ} {encoding encoding' : List α}
    {b : β} {c : γ} (h : Reads r encoding b) (h' : Reads (f b) encoding' c) :
    Reads (r >>= f) (encoding ++ encoding') c := by
  intro rest
  rw [run_bind, List.append_assoc, h]
  exact h' rest

theorem Reads.map {r : Reader α ε β} {encoding : List α} {b : β} (f : β → γ)
    (h : Reads r encoding b) : Reads (f <$> r) encoding (f b) := by
  intro rest
  rw [StateT.run_map, h]
  rfl

/-- The last reader of a row takes nothing. -/
theorem Reads.bind_pure {r : Reader α ε β} {f : β → Reader α ε γ} {encoding : List α}
    {b : β} {c : γ} (h : Reads r encoding b) (h' : Reads (f b) [] c) :
    Reads (r >>= f) encoding c := by
  simpa using h.bind h'

theorem local_pure (b : β) : Local (pure b : Reader α ε β) := by
  intro input b' rest h
  obtain ⟨rfl, rfl⟩ := Prod.mk.inj (Except.ok.inj h)
  exact ⟨[], rfl, reads_pure b⟩

theorem Local.map {r : Reader α ε β} (f : β → γ) (h : Local r) : Local (f <$> r) := by
  intro input c rest hrun
  rw [StateT.run_map] at hrun
  cases hfirst : r.run input with
  | error e => rw [hfirst] at hrun; cases hrun
  | ok x =>
      rw [hfirst] at hrun
      obtain ⟨rfl, rfl⟩ := Prod.mk.inj (Except.ok.inj hrun)
      obtain ⟨front, hinput, hreads⟩ := h input x.1 x.2 hfirst
      exact ⟨front, hinput, hreads.map f⟩

theorem Local.bind {r : Reader α ε β} {f : β → Reader α ε γ} (h : Local r)
    (h' : ∀ b, Local (f b)) : Local (r >>= f) := by
  intro input c rest hrun
  rw [run_bind] at hrun
  split at hrun
  · next b rest' hfirst =>
      obtain ⟨front, rfl, hreads⟩ := h input b rest' hfirst
      obtain ⟨front', rfl, hreads'⟩ := h' b rest' c rest hrun
      exact ⟨front ++ front', (List.append_assoc front front' rest).symm, hreads.bind hreads'⟩
  · cases hrun

theorem Local.steady {r : Reader α ε β} (h : Local r) : Steady r := by
  intro input b rest hrun more
  obtain ⟨front, rfl, hreads⟩ := h input b rest hrun
  rw [List.append_assoc]
  exact hreads _

theorem Local.shrinks {r : Reader α ε β} (h : Local r) : Shrinks r := by
  intro input b rest hrun
  obtain ⟨front, rfl, -⟩ := h input b rest hrun
  rw [List.length_append]
  exact Nat.le_add_left _ _

theorem Shrinks.bind {r : Reader α ε β} {f : β → Reader α ε γ} (h : Shrinks r)
    (h' : ∀ b, Shrinks (f b)) : Shrinks (r >>= f) := by
  intro input c rest hrun
  rw [run_bind] at hrun
  split at hrun
  · next b rest' hfirst =>
      exact Nat.le_trans (h' b rest' c rest hrun) (h input b rest' hfirst)
  · cases hrun

theorem Consumes.bind {r : Reader α ε β} {f : β → Reader α ε γ} (h : Consumes r)
    (h' : ∀ b, Shrinks (f b)) : Consumes (r >>= f) := by
  intro input c rest hrun
  rw [run_bind] at hrun
  split at hrun
  · next b rest' hfirst =>
      exact Nat.lt_of_le_of_lt (h' b rest' c rest hrun) (h input b rest' hfirst)
  · cases hrun

theorem Steady.bind {r : Reader α ε β} {f : β → Reader α ε γ} (h : Steady r)
    (h' : ∀ b, Steady (f b)) : Steady (r >>= f) := by
  intro input c rest hrun more
  rw [run_bind] at hrun ⊢
  split at hrun
  · next b rest' hfirst =>
      rw [h input b rest' hfirst more]
      exact h' b rest' c rest hrun more
  · cases hrun

end Reader

/-! ## Numbers of a fixed width -/

/-- The number that bytes denote, the lowest first. -/
def littleEndian : Bytes → Nat
  | [] => 0
  | b :: bs => b.toNat + 256 * littleEndian bs

/-- The lowest `width` bytes of a number, the lowest first. -/
def toLittleEndian : Nat → Nat → Bytes
  | 0, _ => []
  | width + 1, n => UInt8.ofNat n :: toLittleEndian width (n / 256)

@[simp] theorem length_toLittleEndian (width n : Nat) :
    (toLittleEndian width n).length = width := by
  induction width generalizing n with
  | zero => rfl
  | succ width ih => simp [toLittleEndian, ih]

/-- A number that fits its width is read back. -/
theorem littleEndian_toLittleEndian {width n : Nat} (h : n < 256 ^ width) :
    littleEndian (toLittleEndian width n) = n := by
  induction width generalizing n with
  | zero =>
      rw [Nat.pow_zero] at h
      simp only [toLittleEndian, littleEndian]
      omega
  | succ width ih =>
      have hdiv : n / 256 < 256 ^ width := by
        rw [Nat.pow_succ] at h
        omega
      simp only [toLittleEndian, littleEndian, ih hdiv, UInt8.toNat_ofNat']
      omega

theorem littleEndian_lt (bs : Bytes) : littleEndian bs < 256 ^ bs.length := by
  induction bs with
  | nil => simp [littleEndian]
  | cons b bs ih =>
      have hb : b.toNat < 256 := b.toNat_lt
      simp only [littleEndian, List.length_cons, Nat.pow_succ]
      omega

/-- As many bytes that denote the same number are the same. -/
theorem littleEndian_injective {bs bs' : Bytes} (hlen : bs.length = bs'.length)
    (h : littleEndian bs = littleEndian bs') : bs = bs' := by
  induction bs generalizing bs' with
  | nil => exact (List.length_eq_zero_iff.mp hlen.symm).symm
  | cons b bs ih =>
      cases bs' with
      | nil => simp at hlen
      | cons b' bs' =>
          have hb : b.toNat < 256 := b.toNat_lt
          have hb' : b'.toNat < 256 := b'.toNat_lt
          simp only [littleEndian] at h
          have hhead : b = b' := UInt8.toNat_inj.mp (by omega)
          rw [hhead, ih (by simpa using hlen) (by omega)]

/-- The number of this many bytes in two's complement. -/
def signed (width n : Nat) : Int :=
  if 2 * n < 256 ^ width then n else (n : Int) - (256 ^ width : Nat)

/-- Two's complement in so many bytes, the lowest first. -/
def toTwosComplement (width : Nat) (value : Int) : Bytes :=
  toLittleEndian width (value % (256 ^ width : Nat)).toNat

@[simp] theorem length_toTwosComplement (width : Nat) (value : Int) :
    (toTwosComplement width value).length = width :=
  length_toLittleEndian _ _

/-- A number that fits two's complement is read back. -/
theorem signed_toTwosComplement {width : Nat} {value : Int}
    (hlow : -(256 ^ width : Nat) ≤ 2 * value) (hhigh : 2 * value < (256 ^ width : Nat)) :
    signed width (littleEndian (toTwosComplement width value)) = value := by
  have hpos : 0 < 256 ^ width := Nat.pow_pos (by decide)
  have hlt : (value % (256 ^ width : Nat)).toNat < 256 ^ width := by
    have := Int.emod_lt_of_pos value (show (0 : Int) < (256 ^ width : Nat) by omega)
    omega
  rw [toTwosComplement, littleEndian_toLittleEndian hlt, signed]
  generalize 256 ^ width = m at *
  by_cases hsign : 0 ≤ value
  · rw [Int.emod_eq_of_lt hsign (by omega)]
    split <;> omega
  · have hmod : value % (m : Int) = value + m := by
      rw [← Int.add_emod_right]
      exact Int.emod_eq_of_lt (by omega) (by omega)
    rw [hmod]
    split <;> omega

end BuildYourOwnRedis.Foundation

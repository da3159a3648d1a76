import Mathlib
import StackCalculator.Text.Utf8

/-!
# The bytes of a character

A character is one to four bytes. The first tells how many follow and holds the first bits of its
value, and each of the others holds six more. The decoder reads them with a character begun, which
keeps the value so far, the number of bytes still owed, and the bounds of the next one. So what a
character begun takes are the bytes that hold the rest of the bits of some value, and the bounds on
the second byte leave those values for which there is no shorter form, and which are characters at
all.

## Main definitions

* `Form n base v`: the characters with `n` bytes behind the first
* `Partial.Takes rest v`: what a character begun still takes, and its value with that

## Main results

* `exists_form`: the bytes of a character
* `takes_lead_iff`: a first byte takes the rest of the characters that begin with it
* `run_encodeChar`: the decoder reads a character from its bytes
* `encodeChar_of_run`: what the decoder has begun is the beginning of a character
-/

namespace StackCalculator.Utf8

/-! ## The forms of a character -/

/-- A byte that goes on with a character: the last six bits of a number. -/
def tail (n : Nat) : UInt8 :=
  UInt8.ofNat (n % 64 + 128)

/-- The last `n` bytes of a character, with six bits of its value each. -/
def tails : Nat → Nat → List UInt8
  | 0, _ => []
  | n + 1, v => tail (v / 64 ^ n) :: tails n v

@[simp]
theorem toNat_tail (n : Nat) : (tail n).toNat = n % 64 + 128 := by
  rw [tail, UInt8.toNat_ofNat', Nat.mod_eq_of_lt (by omega)]

theorem tail_mem (n : Nat) : 0x80 ≤ tail n ∧ tail n ≤ 0xBF := by
  have h80 : (0x80 : UInt8).toNat = 128 := rfl
  have hBF : (0xBF : UInt8).toNat = 191 := rfl
  rw [UInt8.le_iff_toNat_le, UInt8.le_iff_toNat_le, toNat_tail]
  omega

theorem tail_of_toNat {b : UInt8} {n : Nat} (h : b.toNat = n % 64 + 128) : b = tail n :=
  UInt8.toNat_inj.mp (by rw [h, toNat_tail])

/-- **The forms of a character**: how many bytes follow the first, what is added to the bits in the
first, and which values have the form. -/
inductive Form : Nat → Nat → Nat → Prop where
  | one {v : Nat} (h : v < 0x80) : Form 0 0 v
  | two {v : Nat} (h : 0x80 ≤ v ∧ v < 0x800) : Form 1 0xC0 v
  | three {v : Nat} (h : 0x800 ≤ v ∧ v < 0x10000) : Form 2 0xE0 v
  | four {v : Nat} (h : 0x10000 ≤ v ∧ v < 0x110000) : Form 3 0xF0 v

/-- **The bytes of a character** are those of its form. -/
theorem exists_form (c : Char) :
    ∃ n base b, Form n base c.toNat ∧ b.toNat = c.toNat / 64 ^ n + base ∧
    String.utf8EncodeChar c = b :: tails n c.toNat := by
  have hv : c.val.toNat = c.toNat := rfl
  have hvalid : c.toNat < 0xD800 ∨ 0xDFFF < c.toNat ∧ c.toNat < 0x110000 := c.valid
  have hfirst : ∀ {n}, n < 256 → (UInt8.ofNat n).toNat = n := fun hn => by
    rw [UInt8.toNat_ofNat', Nat.mod_eq_of_lt hn]
  simp only [String.utf8EncodeChar, hv]
  split
  · exact ⟨0, 0, _, .one (by omega), by rw [hfirst (by omega)]; simp, rfl⟩
  split
  · refine ⟨1, 0xC0, _, .two (by omega), hfirst (by omega), ?_⟩
    rw [Nat.mod_eq_of_lt (by omega : c.toNat / 64 < 32)]
    simp [tails, tail]
  split
  · refine ⟨2, 0xE0, _, .three (by omega), hfirst (by omega), ?_⟩
    rw [Nat.mod_eq_of_lt (by omega : c.toNat / 4096 < 16)]
    simp [tails, tail]
  · refine ⟨3, 0xF0, _, .four (by omega), hfirst (by omega), ?_⟩
    rw [Nat.mod_eq_of_lt (by omega : c.toNat / 262144 < 8)]
    simp [tails, tail]

variable {q : Partial} {b : UInt8} {rest : List UInt8} {v : Nat}

theorem Form.unique {n n' base base' : Nat} (h : Form n base v) (h' : Form n' base' v) :
    n = n' ∧ base = base' := by
  cases h <;> cases h' <;> first | exact ⟨rfl, rfl⟩ | omega

/-! ## Characters begun -/

/-- The character begun, one byte later. -/
def Partial.next (q : Partial) (b : UInt8) : Partial :=
  ⟨q.value * 64 + (b.toNat - 0x80), q.owed - 1, 0x80, 0xBF⟩

/-- **The bytes that a character begun still takes**, and its value with them. -/
inductive Partial.Takes : Partial → List UInt8 → Nat → Prop where
  | last {q : Partial} {b : UInt8} (howed : q.owed ≤ 1) (hlow : q.low ≤ b) (hhigh : b ≤ q.high) :
    q.Takes [b] (q.next b).value
  | more {q : Partial} {b : UInt8} {rest : List UInt8} {v : Nat} (howed : 1 < q.owed)
    (hlow : q.low ≤ b) (hhigh : b ≤ q.high) (hrest : (q.next b).Takes rest v) :
    q.Takes (b :: rest) v

/-- **A character begun that can be completed.** -/
structure Partial.Open (q : Partial) : Prop where
  owed : 1 ≤ q.owed
  low : 0x80 ≤ q.low
  high : q.high ≤ 0xBF
  range : q.low ≤ q.high

theorem Partial.Open.next (_ : q.Open) (howed : 1 < q.owed) (b : UInt8) : (q.next b).Open :=
  ⟨Nat.le_sub_one_of_lt howed, UInt8.le_refl _, UInt8.le_refl _,
    show (0x80 : UInt8) ≤ 0xBF by decide⟩

/-- Some bytes complete a character begun. -/
theorem Partial.Open.exists_takes (h : q.Open) : ∃ rest v, q.Takes rest v := by
  induction hn : q.owed generalizing q with
  | zero => exact absurd h.owed (by rw [hn]; decide)
  | succ n ih =>
    by_cases howed : 1 < q.owed
    · obtain ⟨rest, v, hrest⟩ := ih (h.next howed q.low) (Nat.sub_eq_of_eq_add hn)
      exact ⟨_, _, .more howed (UInt8.le_refl _) h.range hrest⟩
    · exact ⟨_, _, .last (Nat.le_of_not_lt howed) (UInt8.le_refl _) h.range⟩

theorem toNat_mem_of_open (h : q.Open) (hlow : q.low ≤ b) (hhigh : b ≤ q.high) :
    0x80 ≤ b.toNat ∧ b.toNat ≤ 0xBF :=
  ⟨UInt8.le_iff_toNat_le.mp (UInt8.le_trans h.low hlow),
    UInt8.le_iff_toNat_le.mp (UInt8.le_trans hhigh h.high)⟩

/-- A byte that is taken holds the last bits of the value so far. -/
theorem tail_next (h : 0x80 ≤ b.toNat ∧ b.toNat ≤ 0xBF) :
    tail (q.next b).value = b ∧ (q.next b).value / 64 = q.value := by
  have hvalue : (q.next b).value = q.value * 64 + (b.toNat - 0x80) := rfl
  exact ⟨(tail_of_toNat (by omega)).symm, by omega⟩

theorem next_tail {n : Nat} (h : n / 64 = q.value) : (q.next (tail n)).value = n := by
  change q.value * 64 + ((tail n).toNat - 0x80) = n
  rw [toNat_tail]
  omega

theorem div_pow_pred {n : Nat} (h : 1 ≤ n) (v : Nat) : v / 64 ^ (n - 1) / 64 = v / 64 ^ n := by
  rw [Nat.div_div_eq_div_mul, ← Nat.pow_succ, Nat.succ_eq_add_one, Nat.sub_add_cancel h]

theorem tails_of_pos {n : Nat} (h : 1 ≤ n) (v : Nat) :
    tails n v = tail (v / 64 ^ (n - 1)) :: tails (n - 1) v := by
  cases n with
  | zero => cases h
  | succ n => rfl

/-- **What a character begun takes is what is left of the bits of its value.** -/
theorem Partial.Open.takes_iff (h : q.Open) :
    q.Takes rest v ↔ rest = tails q.owed v ∧ v / 64 ^ q.owed = q.value ∧
      q.low ≤ tail (v / 64 ^ (q.owed - 1)) ∧ tail (v / 64 ^ (q.owed - 1)) ≤ q.high := by
  constructor
  · intro ht
    induction ht with
    | @last q b howed hlow hhigh =>
      obtain ⟨htail, hvalue⟩ := tail_next (q := q) (toNat_mem_of_open h hlow hhigh)
      have hone : q.owed = 1 := Nat.le_antisymm howed h.owed
      simp only [hone, tails, Nat.sub_self, Nat.pow_zero, Nat.pow_one, Nat.div_one, htail]
      exact ⟨trivial, hvalue, hlow, hhigh⟩
    | @more q b rest v howed hlow hhigh hrest ih =>
      obtain ⟨hbytes, hvalue, -⟩ := ih (h.next howed b)
      change rest = tails (q.owed - 1) v at hbytes
      change v / 64 ^ (q.owed - 1) = (q.next b).value at hvalue
      obtain ⟨htail, hdiv⟩ := tail_next (q := q) (toNat_mem_of_open h hlow hhigh)
      rw [tails_of_pos h.owed, ← div_pow_pred h.owed, hvalue, htail, hbytes]
      exact ⟨rfl, hdiv, hlow, hhigh⟩
  · rintro ⟨rfl, hvalue, hlow, hhigh⟩
    induction hn : q.owed generalizing q with
    | zero => exact absurd h.owed (by rw [hn]; decide)
    | succ n ih =>
      have howed' : q.owed - 1 = n := Nat.sub_eq_of_eq_add hn
      have hnext := next_tail (q := q) ((div_pow_pred h.owed v).trans hvalue)
      rw [howed'] at hlow hhigh hnext
      by_cases howed : 1 < q.owed
      · have hrest := ih (h.next howed (tail (v / 64 ^ n))) (by rw [hnext, ← howed']; rfl)
          (tail_mem _).1 (tail_mem _).2 howed'
        exact .more howed hlow hhigh hrest
      · obtain rfl : n = 0 := by omega
        rw [Nat.pow_zero, Nat.div_one] at hlow hhigh hnext
        have hlast := Partial.Takes.last (Nat.le_of_not_lt howed) hlow hhigh
        simpa [hnext, tails] using hlast

/-! ## First bytes -/

/-- What a first byte completes, if it begins nothing. -/
theorem lead_of_none (h : (lead b).2 = none) :
    b.toNat < 0x80 ∧ lead b = ([Char.ofNat b.toNat], none) ∨
      (0x80 ≤ b.toNat ∧ b.toNat < 0xC2 ∨ 0xF5 ≤ b.toNat) ∧ lead b = ([replacement], none) := by
  have h80 : b < 0x80 ↔ b.toNat < 0x80 := UInt8.lt_iff_toNat_lt
  have hC2 : b < 0xC2 ↔ b.toNat < 0xC2 := UInt8.lt_iff_toNat_lt
  have hF5 : b < 0xF5 ↔ b.toNat < 0xF5 := UInt8.lt_iff_toNat_lt
  unfold lead at h ⊢
  grind

theorem toNat_ite {P Q : Prop} [Decidable P] [Decidable Q] {x y : UInt8} {m n : Nat} (h : P ↔ Q)
    (hx : x.toNat = m) (hy : y.toNat = n) : (if P then x else y).toNat = if Q then m else n := by
  rw [apply_ite UInt8.toNat, if_congr h hx hy]

/-- What a first byte begins. -/
theorem lead_of_some (h : (lead b).2 = some q) : lead b = ([], some q) ∧
    (q.owed = 1 ∧ b.toNat = q.value + 0xC0 ∧ (2 ≤ q.value ∧ q.value < 0x20) ∧
        q.low.toNat = 0x80 ∧ q.high.toNat = 0xBF ∨
      q.owed = 2 ∧ b.toNat = q.value + 0xE0 ∧ q.value < 0x10 ∧
        q.low.toNat = (if q.value = 0 then 0xA0 else 0x80) ∧
        q.high.toNat = (if q.value = 0xD then 0x9F else 0xBF) ∨
      q.owed = 3 ∧ b.toNat = q.value + 0xF0 ∧ q.value < 5 ∧
        q.low.toNat = (if q.value = 0 then 0x90 else 0x80) ∧
        q.high.toNat = (if q.value = 4 then 0x8F else 0xBF)) := by
  have hE0 : b = 0xE0 ↔ b.toNat = 0xE0 := UInt8.toNat_inj.symm
  have hED : b = 0xED ↔ b.toNat = 0xED := UInt8.toNat_inj.symm
  have hF0 : b = 0xF0 ↔ b.toNat = 0xF0 := UInt8.toNat_inj.symm
  have hF4 : b = 0xF4 ↔ b.toNat = 0xF4 := UInt8.toNat_inj.symm
  have h80 : b < 0x80 ↔ b.toNat < 0x80 := UInt8.lt_iff_toNat_lt
  have hC2 : b < 0xC2 ↔ b.toNat < 0xC2 := UInt8.lt_iff_toNat_lt
  have hE0' : b < 0xE0 ↔ b.toNat < 0xE0 := UInt8.lt_iff_toNat_lt
  have hF0' : b < 0xF0 ↔ b.toNat < 0xF0 := UInt8.lt_iff_toNat_lt
  have hF5 : b < 0xF5 ↔ b.toNat < 0xF5 := UInt8.lt_iff_toNat_lt
  unfold lead at h ⊢
  simp only [hE0, hED, hF0, hF4, h80, hC2, hE0', hF0', hF5] at h ⊢
  split at h
  · cases h
  split at h
  · cases h
  split at h
  · obtain rfl := Option.some.inj h
    exact ⟨by simp [*], .inl ⟨rfl, by dsimp only; omega, by dsimp only; omega, rfl, rfl⟩⟩
  split at h
  · obtain rfl := Option.some.inj h
    exact ⟨by simp [*], .inr (.inl ⟨rfl, by dsimp only; omega, by dsimp only; omega,
      toNat_ite (by dsimp only; omega) rfl rfl, toNat_ite (by dsimp only; omega) rfl rfl⟩)⟩
  split at h
  · obtain rfl := Option.some.inj h
    exact ⟨by simp [*], .inr (.inr ⟨rfl, by dsimp only; omega, by dsimp only; omega,
      toNat_ite (by dsimp only; omega) rfl rfl, toNat_ite (by dsimp only; omega) rfl rfl⟩)⟩
  · cases h

theorem open_of_lead (h : (lead b).2 = some q) : q.Open := by
  have hnat : 1 ≤ q.owed ∧ 0x80 ≤ q.low.toNat ∧ q.high.toNat ≤ 0xBF ∧
      q.low.toNat ≤ q.high.toNat := by
    obtain ⟨-, hq | hq | hq⟩ := lead_of_some h <;> grind
  exact ⟨hnat.1, UInt8.le_iff_toNat_le.mpr hnat.2.1, UInt8.le_iff_toNat_le.mpr hnat.2.2.1,
    UInt8.le_iff_toNat_le.mpr hnat.2.2.2⟩

/-- The first byte tells the forms apart. -/
theorem Form.owed_eq {n base : Nat} (h : Form n base v) (hb : b.toNat = v / 64 ^ n + base)
    (hlead : (lead b).2 = some q) : n = q.owed := by
  obtain ⟨-, hq⟩ := lead_of_some hlead
  cases h <;> omega

/-- **The bounds on the second byte** leave the characters of one form. -/
theorem bounds_iff (h : (lead b).2 = some q) :
    (v / 64 ^ q.owed = q.value ∧ q.low.toNat ≤ v / 64 ^ (q.owed - 1) % 64 + 128 ∧
        v / 64 ^ (q.owed - 1) % 64 + 128 ≤ q.high.toNat) ↔
      v.isValidChar ∧ ∃ base, Form q.owed base v ∧ b.toNat = v / 64 ^ q.owed + base := by
  obtain ⟨-, ⟨howed, hb, hq⟩ | ⟨howed, hb, hq⟩ | ⟨howed, hb, hq⟩⟩ := lead_of_some h <;> rw [howed]
  · constructor
    · rintro ⟨hvalue, -⟩
      exact ⟨.inl (by omega), 0xC0, .two (by omega), by omega⟩
    · rintro ⟨-, base, hform, hb'⟩
      cases hform
      omega
  · constructor
    · rintro ⟨hvalue, hlow, hhigh⟩
      exact ⟨by grind, 0xE0, .three (by grind), by omega⟩
    · rintro ⟨hvalid, base, hform, hb'⟩
      cases hform
      grind
  · constructor
    · rintro ⟨hvalue, hlow, hhigh⟩
      exact ⟨by grind, 0xF0, .four (by grind), by omega⟩
    · rintro ⟨-, base, hform, hb'⟩
      cases hform
      grind

/-- **A first byte takes the rest of the characters that begin with it.** -/
theorem takes_lead_iff (h : (lead b).2 = some q) :
    q.Takes rest v ↔ v.isValidChar ∧ String.utf8EncodeChar (Char.ofNat v) = b :: rest := by
  rw [(open_of_lead h).takes_iff, UInt8.le_iff_toNat_le, UInt8.le_iff_toNat_le, toNat_tail,
    bounds_iff h]
  obtain ⟨n, base, b', hform, hb, hbytes⟩ := exists_form (Char.ofNat v)
  constructor
  · rintro ⟨rfl, hvalid, base', hform', hb'⟩
    rw [Char.toNat_ofNat, if_pos hvalid] at hform hb hbytes
    obtain ⟨rfl, rfl⟩ := hform.unique hform'
    obtain rfl : b' = b := UInt8.toNat_inj.mp (hb.trans hb'.symm)
    exact ⟨hvalid, hbytes⟩
  · rintro ⟨hvalid, hbytes'⟩
    rw [Char.toNat_ofNat, if_pos hvalid] at hform hb hbytes
    obtain ⟨rfl, rfl⟩ := List.cons.inj (hbytes.symm.trans hbytes')
    obtain rfl := hform.owed_eq hb h
    exact ⟨rfl, hvalid, base, hform, hb⟩

variable {c : Char} {p : List UInt8} {q' : Partial}

/-- **The bytes of a character**, by the first of them. -/
theorem utf8EncodeChar_eq_cons_iff : String.utf8EncodeChar c = b :: rest ↔
    (b.toNat < 0x80 ∧ c = Char.ofNat b.toNat ∧ rest = []) ∨
      ∃ q, (lead b).2 = some q ∧ q.Takes rest c.toNat := by
  obtain ⟨n, base, b', hform, hb, hbytes⟩ := exists_form c
  cases hlead : (lead b).2 with
  | some q =>
    have hb80 : ¬ b.toNat < 0x80 := by
      obtain ⟨-, hq⟩ := lead_of_some hlead
      omega
    simp [hb80, takes_lead_iff hlead, Char.ofNat_toNat, show c.toNat.isValidChar from c.valid]
  | none =>
    have hrange : b.toNat < 0x80 ∨ b.toNat < 0xC2 ∨ 0xF5 ≤ b.toNat := by
      rcases lead_of_none hlead with ⟨hb, -⟩ | ⟨hb, -⟩ <;> omega
    constructor
    · intro h
      obtain ⟨rfl, rfl⟩ := List.cons.inj (hbytes.symm.trans h)
      -- a byte that begins nothing is the one byte of its character
      have hone : c.toNat < 0x80 ∧ n = 0 ∧ b'.toNat = c.toNat := by cases hform <;> omega
      obtain ⟨hc, rfl, hbc⟩ := hone
      exact .inl ⟨by omega, by rw [hbc, Char.ofNat_toNat], rfl⟩
    · rintro (⟨hb80, rfl, rfl⟩ | ⟨q, hq, -⟩)
      · rw [Char.toNat_ofNat, if_pos (.inl (by omega))] at hform hb hbytes
        cases hform with
        | one _ =>
          obtain rfl : b' = b := UInt8.toNat_inj.mp (by omega)
          exact hbytes
        | two h => omega
        | three h => omega
        | four h => omega
      · cases hq

/-! ## The decoder over the bytes of a character -/

theorem step_last (howed : q.owed ≤ 1) (hlow : q.low ≤ b) (hhigh : b ≤ q.high) :
    step (some q) b = ([Char.ofNat (q.next b).value], none) := by
  simp only [step, if_pos (And.intro hlow hhigh), if_pos howed]
  rfl

theorem step_more (howed : 1 < q.owed) (hlow : q.low ≤ b) (hhigh : b ≤ q.high) :
    step (some q) b = ([], some (q.next b)) := by
  simp only [step, if_pos (And.intro hlow hhigh), if_neg (Nat.not_le_of_lt howed)]
  rfl

theorem step_broken (h : ¬ (q.low ≤ b ∧ b ≤ q.high)) :
    step (some q) b = (replacement :: (lead b).1, (lead b).2) := by
  simp only [step, if_neg h]

theorem Partial.Takes.run (h : q.Takes rest v) : run (some q) rest = ([Char.ofNat v], none) := by
  induction h with
  | last howed hlow hhigh => simp [Utf8.run, step_last howed hlow hhigh]
  | more howed hlow hhigh _ ih => simp [Utf8.run, step_more howed hlow hhigh, ih]

theorem Partial.Takes.bounds (h : q.Takes (b :: rest) v) : q.low ≤ b ∧ b ≤ q.high := by
  cases h with
  | last _ hlow hhigh => exact ⟨hlow, hhigh⟩
  | more _ hlow hhigh _ => exact ⟨hlow, hhigh⟩

/-- In the middle of a character, nothing is completed. -/
theorem Partial.Takes.exists_run (h : q.Takes (p ++ b :: rest) v) :
    ∃ q', Utf8.run (some q) p = ([], some q') ∧ q'.Takes (b :: rest) v := by
  induction p generalizing q with
  | nil => exact ⟨q, rfl, h⟩
  | cons a p ih =>
    generalize hbytes : a :: p ++ b :: rest = bytes at h
    cases h with
    | last => simp at hbytes
    | more howed hlow hhigh hrest =>
      obtain ⟨rfl, rfl⟩ := List.cons.inj hbytes
      obtain ⟨q', hrun, htakes⟩ := ih hrest
      exact ⟨q', by simp [Utf8.run, step_more howed hlow hhigh, hrun], htakes⟩

/-- What is taken behind some bytes is taken with them. -/
theorem takes_of_run (h : run (some q) p = ([], some q')) (hq : q.Open) :
    q'.Open ∧ ∀ rest v, q'.Takes rest v → q.Takes (p ++ rest) v := by
  induction p generalizing q with
  | nil =>
    cases h
    exact ⟨hq, fun _ _ h => h⟩
  | cons a p ih =>
    by_cases hin : q.low ≤ a ∧ a ≤ q.high
    · by_cases howed : 1 < q.owed
      · simp only [run, step_more howed hin.1 hin.2, List.nil_append] at h
        obtain ⟨hopen, htakes⟩ := ih h (hq.next howed a)
        exact ⟨hopen, fun rest v hrest => .more howed hin.1 hin.2 (htakes rest v hrest)⟩
      · simp [run, step_last (Nat.le_of_not_lt howed) hin.1 hin.2] at h
    · simp [run, step_broken hin] at h

/-- The first byte of a character that is begun. -/
theorem exists_lead_of_run (h : run none p = ([], some q)) :
    ∃ a p' q₀, p = a :: p' ∧ (lead a).2 = some q₀ ∧ run (some q₀) p' = ([], some q) := by
  cases p with
  | nil => cases h
  | cons a p' =>
    cases hlead : (lead a).2 with
    | none =>
      rcases lead_of_none hlead with ⟨-, hl⟩ | ⟨-, hl⟩ <;> simp [run, step, hl] at h
    | some q₀ =>
      refine ⟨a, p', q₀, rfl, hlead, ?_⟩
      simpa [run, step, (lead_of_some hlead).1, Prod.ext_iff] using h

/-- **The decoder reads a character.** -/
theorem run_encodeChar (c : Char) : run none (String.utf8EncodeChar c) = ([c], none) := by
  cases hbytes : String.utf8EncodeChar c with
  | nil => exact absurd hbytes String.utf8EncodeChar_ne_nil
  | cons b rest =>
    rcases utf8EncodeChar_eq_cons_iff.mp hbytes with ⟨hb, rfl, rfl⟩ | ⟨q, hlead, htakes⟩
    · simp [run, step, lead, UInt8.lt_iff_toNat_lt, hb]
    · simp [run, step, (lead_of_some hlead).1, htakes.run]

/-- In the middle of a character, nothing is completed. -/
theorem exists_run_of_encodeChar (h : String.utf8EncodeChar c = p ++ b :: rest) (hp : p ≠ []) :
    ∃ q, run none p = ([], some q) ∧ q.Takes (b :: rest) c.toNat := by
  obtain ⟨a, p', rfl⟩ := List.exists_cons_of_ne_nil hp
  rcases utf8EncodeChar_eq_cons_iff.mp h with ⟨-, -, hnil⟩ | ⟨q₀, hlead, htakes⟩
  · simp at hnil
  · obtain ⟨q, hrun, hrest⟩ := htakes.exists_run
    exact ⟨q, by simp [run, step, (lead_of_some hlead).1, hrun], hrest⟩

/-- **A character begun** is completed by the bytes it takes. -/
theorem encodeChar_of_run (h : run none p = ([], some q)) (hrest : q.Takes rest v) :
    String.utf8EncodeChar (Char.ofNat v) = p ++ rest := by
  obtain ⟨a, p', q₀, rfl, hlead, hrun⟩ := exists_lead_of_run h
  exact ((takes_lead_iff hlead).mp ((takes_of_run hrun (open_of_lead hlead)).2 rest v hrest)).2

end StackCalculator.Utf8

/-
# Every length that is read is exact

The numbers of a length are limited, so reducing `n / m` never makes a term too large: whatever
length is read can be written again (`notated_of_readLength`), and so can the length of whatever
symbol is read (`notated_of_readSymbol`).  Only a sum of lengths can get too large.
-/

import Polyphony.Proofs.Notation.Reading
import Polyphony.Proofs.Notation.Spelling

namespace Polyphony

namespace Duration

/-- Reducing a fraction makes neither term larger. -/
theorem notated_of_ofFraction? {num den : Nat} {d : Duration}
    (hnum : num ≤ Notation.maxLengthTerm) (hden : den ≤ Notation.maxLengthTerm)
    (h : ofFraction? num den = some d) : d.Notated := by
  have hsmall : Notation.maxLengthTerm ≤ maxTerm := by decide
  have hn : num / num.gcd den ≤ Notation.maxLengthTerm := (Nat.div_le_self _ _).trans hnum
  have hd : den / num.gcd den ≤ Notation.maxLengthTerm := (Nat.div_le_self _ _).trans hden
  unfold ofFraction? at h
  split at h
  · obtain rfl := Option.some.inj h
    rw [reduce, dif_pos ⟨hn.trans hsmall, hd.trans hsmall⟩]
    exact ⟨_, rfl, hn, hd⟩
  · cases h

end Duration

namespace Notation

variable {t : Text} {i : Instrument}

theorem le_of_readNumerator {n : Nat} {behind : Text} (h : readNumerator t = .ok (n, behind)) :
    n ≤ maxLengthTerm := by
  unfold readNumerator at h
  split at h
  · obtain ⟨rfl, -⟩ := Prod.mk.inj (Except.ok.inj h)
    decide
  · split at h
    · next hterm =>
      obtain ⟨rfl, -⟩ := Prod.mk.inj (Except.ok.inj h)
      exact lengthTerm?_le hterm
    · cases h

theorem le_of_readDenominator {n : Nat} (h : readDenominator t = .ok n) : n ≤ maxLengthTerm := by
  cases t with
  | nil =>
    obtain rfl := Except.ok.inj h
    decide
  | cons b t =>
    rw [readDenominator] at h
    split at h
    · split at h
      · cases h
      · next hterm =>
        split at h
        · obtain rfl := Except.ok.inj h
          exact lengthTerm?_le hterm
        · cases h
    · cases h

end Notation
end Polyphony

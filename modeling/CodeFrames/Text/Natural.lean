import CodeFrames.Text.Basic

/-!
Natural numbers as they are written in arguments and settings: digits in a base of at most sixteen.
In decimal a plus sign may stand in front; such a number has at most 64 bits.
-/

namespace CodeFrames.Text

/-- The value of a digit, where the letters up to `f`, in either case, are those from ten on. -/
def digitValue? (c : Char) : Option Nat :=
  if '0' ≤ c ∧ c ≤ '9' then some (c.toNat - '0'.toNat)
  else if 'a' ≤ c ∧ c ≤ 'f' then some (c.toNat - 'a'.toNat + 10)
  else if 'A' ≤ c ∧ c ≤ 'F' then some (c.toNat - 'A'.toNat + 10)
  else none

theorem digitValue?_digitChar {d : Nat} (h : d < 16) : digitValue? d.digitChar = some d := by
  have all : ∀ e ∈ List.range 16, digitValue? e.digitChar = some e := by decide
  exact all d (List.mem_range.mpr h)

/-- The value of some digits, and `none` where there is none or something else stands among them. -/
def digits? (base : Nat) (t : Text) : Option Nat :=
  if t.isEmpty then none
  else t.foldlM (fun n c => ((digitValue? c).filter (· < base)).map (base * n + ·)) 0

def natural? (t : Text) : Option Nat :=
  (digits? 10 (match t with | '+' :: t => t | t => t)).filter (· < UInt64.size)

end CodeFrames.Text

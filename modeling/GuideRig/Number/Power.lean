/-
# GuideRig.Number.Power -- powers of two and of ten

Powers of two say how many numbers fit into so many bits, and powers of ten how far decimal digits
reach. Both are of natural numbers throughout this library.
-/

namespace GuideRig

/-- How many numbers fit into so many bits. -/
def twoTo (bits : Nat) : Nat := Nat.pow 2 bits

/-- How many numbers so many decimal digits can write. -/
def tenTo (digits : Nat) : Nat := Nat.pow 10 digits

end GuideRig

/-! Integers of 64 bits: how many there are, the least and the greatest of them, and which integers
are among them. -/
namespace BlockProgram.Number

def wordSize : Nat := 0x10000000000000000

def leastInteger : Int := -0x8000000000000000

def greatestInteger : Int := 0x7fffffffffffffff

def fitsInteger (i : Int) : Bool := leastInteger ≤ i && i ≤ greatestInteger

/-- The integer of 64 bits that a count comes to when it goes over either end. -/
def wrap (i : Int) : Int := Int.bmod i wordSize

end BlockProgram.Number

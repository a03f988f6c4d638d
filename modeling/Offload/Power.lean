/-!
# Powers

Bounds of machine integers are written as powers of two, and a power of naturals or of integers
means repeated multiplication in `Nat` and `Int`. With an algebraic hierarchy in scope a power
could also be read through a monoid; the numbers are the same, but not the terms. The attributes
below make every module of the library read a power as the plain one.
-/

attribute [instance (10000)] instPowNat
attribute [default_instance 20000] instPowNat

/-!
# Powers of whole numbers

The powers in this library are the ones that come with the natural numbers and the integers. They
are chosen before the powers of a monoid, so that a bound such as `2 ^ 53` is the same term in every
module, whatever else the module knows of.
-/

namespace TagGraph

@[default_instance 20000]
instance (priority := 20000) naturalPower : Pow Nat Nat := instPowNat

@[default_instance 15000]
instance (priority := 20000) integerPower : Pow Int Nat := instPowNat

end TagGraph

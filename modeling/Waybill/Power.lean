/-!
# Powers

Powers with natural exponents are the built-in ones, also where a library has others for them.
-/

namespace Waybill

@[default_instance 20000]
instance (priority := 20000) builtinPow {α : Type} [NatPow α] : Pow α Nat := instPowNat

end Waybill

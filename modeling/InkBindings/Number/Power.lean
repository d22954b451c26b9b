/-!
Powers with natural exponents are the ones of the core library, also where there is more algebra
in scope.
-/

attribute [instance (1100), default_instance (20000)] instPowNat

import PeerLink.Module.FastExtension
import PeerLink.Module.Registry

/-!
# All modules of a connection

A connection has the modules of this library and those of its owner.  The types
of custom modules and custom sub-protocols are parameters; `Empty` stands for
none.
-/

namespace PeerLink

/-- A module of this library, or a custom one. -/
inductive AnyModule (X Y : Type) where
  | fast (extension : FastExtension)
  | registry (registry : Registry Y)
  | custom (m : X)

namespace AnyModule

variable {X Y : Type} [Capability X] [SubProtocol Y]

instance : Capability (AnyModule X Y) where
  descriptor
    | fast m => Capability.descriptor m
    | registry m => Capability.descriptor m
    | custom m => Capability.descriptor m
  onHandshake
    | fast m, s, h => (Capability.onHandshake m s h).mapNext .fast
    | registry m, s, h => (Capability.onHandshake m s h).mapNext .registry
    | custom m, s, h => (Capability.onHandshake m s h).mapNext .custom
  onCommand
    | fast m, s, c, p => (Capability.onCommand m s c p).mapNext .fast
    | registry m, s, c, p => (Capability.onCommand m s c p).mapNext .registry
    | custom m, s, c, p => (Capability.onCommand m s c p).mapNext .custom
  onTeardown
    | fast m => (Capability.onTeardown m).map .fast id
    | registry m => (Capability.onTeardown m).map .registry id
    | custom m => (Capability.onTeardown m).map .custom id

end AnyModule
end PeerLink

import ByteAtlas.Schema.Codec

/-!
# Limits

A schema can describe what never ends: a struct within itself, an offset that depends on itself.
`Limits` bound the work of one request. Reading them from JSON, what is left out has its default.
-/

namespace ByteAtlas

/-- Bounds on the work of one request. -/
structure Limits where
  /-- The number of resolution frames within each other. -/
  maxDepth : Nat
  /-- Larger element counts are cut to this. -/
  maxElements : Int64
  /-- The number of instances that expanding everything may make. -/
  maxExpandInstances : Nat
  deriving DecidableEq, Repr

namespace Limits

def default : Limits := ⟨64, 0x100000, 10000⟩

instance : Inhabited Limits := ⟨default⟩

open Json (toWord toNat64 toRecord ofWord ofInt)

def encode (l : Limits) : Json :=
  .record [("max_depth", ofInt l.maxDepth), ("max_elements", ofWord l.maxElements),
    ("max_expand_instances", ofInt l.maxExpandInstances)]

def keys : List String := ["max_depth", "max_elements", "max_expand_instances"]

/-- The limits with one more member. -/
def addMember (l : Limits) (key : String) (j : Json) : Decoded Limits :=
  match key with
  | "max_depth" => (toNat64 j).map fun maxDepth => { l with maxDepth }
  | "max_elements" => (toWord j).map fun maxElements => { l with maxElements }
  | _ => (toNat64 j).map fun maxExpandInstances => { l with maxExpandInstances }

def decode (j : Json) : Decoded Limits :=
  toRecord keys addMember default j

end Limits

end ByteAtlas

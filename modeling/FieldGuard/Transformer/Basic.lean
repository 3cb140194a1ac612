import FieldGuard.Extraction.Join
import FieldGuard.Metadata

/-!
# `FieldGuard.Transformer.Basic`: transformers, which turn annotations into metadata

A transformer turns one entry into metadata. It either has a rule of its own, or
it is the join, which borrows the metadata of other properties. A rule is given the
whole request; those of the library read nothing of it.
-/

set_option autoImplicit false

namespace FieldGuard

/-- How a transformer makes metadata. -/
inductive Conversion where
  | own (convert : Environment → Request → Entry → Except Fault Metadata)
  /-- From the metadata of the entries that a join borrows. -/
  | join

/-- What turns annotations into metadata. -/
structure Transformer where
  name : String
  conversion : Conversion

namespace Transformer

/-- A transformer that looks at nothing but the entry. -/
def ofEntry (name : String) (convert : Entry → Except Fault Metadata) : Transformer :=
  ⟨name, .own fun _ _ entry => convert entry⟩

end Transformer

end FieldGuard

import FieldGuard.Registry.Catalog

/-!
# `FieldGuard.Registry.Basic`: finding the plug-in for a source

Mappers propose names for a source; the plug-in of the first name that can be
made is the one for the source. What was found is kept under a key, and found
again without asking the mappers.

* `resolve_of_cached`: what is kept is handed out again, and nothing else happens;
* `cached_resolve`: what is found is kept.
-/

set_option autoImplicit false

namespace FieldGuard

/-- Proposes a name for a source, or none. -/
abbrev Mapper (σ : Type) := σ → Option String

/-- The mapper that proposes one name for every source. -/
def Mapper.fixed {σ : Type} (name : String) : Mapper σ :=
  fun _ => some name

/-- Mappers in the order they are asked, the catalog of plug-ins, and those kept. -/
structure Registry (σ α : Type) where
  /-- What the plug-ins are for. -/
  role : String
  mappers : List (Mapper σ) := []
  catalog : Catalog α := {}
  cache : Dict α := ∅
  deriving Inhabited

namespace Registry

variable {σ α : Type}

/-- The registry with one more mapper, asked last. -/
def addMapper (r : Registry σ α) (mapper : Mapper σ) : Registry σ α :=
  { r with mappers := r.mappers ++ [mapper] }

/-- The registry with one more mapper, asked first. -/
def addMapperFirst (r : Registry σ α) (mapper : Mapper σ) : Registry σ α :=
  { r with mappers := mapper :: r.mappers }

/-- The names proposed for a source, in order. -/
def candidates (r : Registry σ α) (source : σ) : List String :=
  r.mappers.filterMap fun mapper => mapper source

/-- The plug-in kept under a key. -/
def cached? (r : Registry σ α) (key : String) : Option α :=
  r.cache.get? key

/-- Keeps a plug-in under a key. -/
def keep (r : Registry σ α) (key : String) (plugin : α) : Registry σ α :=
  { r with cache := r.cache.insert key plugin }

/-- The plug-in for a source: the one kept under the key, or else the first that can
be made under a proposed name, which is kept from then on. -/
def resolve (r : Registry σ α) (key : String) (source : σ) : Option α × Registry σ α :=
  match r.cached? key with
  | some plugin => (some plugin, r)
  | none =>
    match r.catalog.firstOf (r.candidates source) with
    | (some plugin, catalog) => (some plugin, { r with catalog }.keep key plugin)
    | (none, catalog) => (none, { r with catalog })

/-- What is kept is handed out again, and nothing else happens. -/
theorem resolve_of_cached {r : Registry σ α} {key : String} {plugin : α}
    (h : r.cached? key = some plugin) (source : σ) : r.resolve key source = (some plugin, r) := by
  simp [resolve, h]

/-- What is found is kept. -/
theorem cached_resolve {r : Registry σ α} {key : String} {source : σ} {plugin : α}
    (h : (r.resolve key source).1 = some plugin) :
    (r.resolve key source).2.cached? key = some plugin := by
  unfold resolve at h ⊢
  split at h
  · next kept hkept => simpa [hkept] using h
  · split at h
    · next found catalog hfirst =>
      simp only
      rw [cached?, keep, Dict.get?_insert_self]
      exact h
    · simp at h

end Registry

end FieldGuard

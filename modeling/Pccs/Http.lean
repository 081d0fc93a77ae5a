import Mathlib.Data.List.Basic

/-!
# Layers around an HTTP application

Insertion into a header map leaves one value under the name. A layer answers a
request itself, or hands it on and changes the answer; the layer that is put on
last sees a request first and its answer last. What an application has planned
for a request is known before any of its targets runs.
-/
namespace Pccs.Http

inductive Method where
  | get | head | post | put | options
  | other (name : String)
deriving DecidableEq

/-- Names are in lower case. -/
abbrev Headers : Type := List (String × String)

namespace Headers

def insert (h : Headers) (name value : String) : Headers :=
  h.filter (fun p => decide (p.1 ≠ name)) ++ [(name, value)]

end Headers

structure Response where
  status : Nat
  headers : Headers
  body : List UInt8

def Response.insert (r : Response) (name value : String) : Response :=
  { r with headers := r.headers.insert name value }

/-- Decided already, or left to a target whose answer is changed. -/
inductive Plan (α : Type) where
  | answer (r : Response)
  | target (a : α) (after : Response → Response)

section Layers

variable {ρ α : Type}

def Plan.change (after : Response → Response) : Plan α → Plan α
  | .answer r => .answer (after r)
  | .target a inner => .target a fun r => after (inner r)

/-- The response, if the targets answer so. -/
def Plan.reply (answers : α → Response) : Plan α → Response
  | .answer r => r
  | .target a after => after (answers a)

/-- The answer a layer gives itself, or what it does to that of the next. -/
abbrev Layer (ρ : Type) : Type := ρ → Except Response (Response → Response)

def Layer.around (layer : Layer ρ) (app : ρ → Plan α) (q : ρ) : Plan α :=
  match layer q with
  | .error r => .answer r
  | .ok after => (app q).change after

variable {layer : Layer ρ} {app : ρ → Plan α} {q : ρ}

/-- A target is reached through all the layers around it. -/
theorem target_of_around {a : α} {after : Response → Response}
    (h : layer.around app q = .target a after) :
    ∃ f inner, layer q = .ok f ∧ app q = .target a inner := by
  unfold Layer.around at h
  split at h
  · cases h
  · rename_i f hf
    cases happ : app q with
    | answer r =>
      rw [happ] at h
      cases h
    | target b inner =>
      rw [happ] at h
      cases h
      exact ⟨f, inner, hf, rfl⟩

end Layers

end Pccs.Http

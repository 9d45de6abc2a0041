import LiveTemplates.Text.Quoted

/-!
# Errors of watched templates

Three things can go wrong between a caller and a template: its resource cannot be read, its
contents are no valid template, or its name denotes no template at all.
-/

namespace LiveTemplates

/-- The resource cannot be read at present. -/
structure Unavailable where
  identity : Text
  reason : Text := "resource unavailable"
deriving DecidableEq

def Unavailable.message (e : Unavailable) : Text := e.identity ++ Text.ofString ": " ++ e.reason

/-- The contents were read and are no valid template. -/
structure InvalidContents where
  reason : Text
  identity : Option Text := none
deriving DecidableEq

/-- An empty identity is left out like a missing one. -/
def InvalidContents.message (e : InvalidContents) : Text :=
  match e.identity with
  | none => e.reason
  | some [] => e.reason
  | some identity => identity ++ Text.ofString ": " ++ e.reason

/-- No template can have the name. -/
structure NoSuchTemplate where
  name : Text
deriving DecidableEq

def NoSuchTemplate.message (e : NoSuchTemplate) : Text :=
  Text.ofString "template not found: " ++ e.name.quoted

end LiveTemplates

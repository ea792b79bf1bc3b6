/-
# GuideRig.Session -- the token of a simulated session and its cookie

A session is an opaque text. A random one has 64 characters from `a` to `{`, each drawn on its
own. The cookie names the session in every request that belongs to it.
-/

import GuideRig.Random

namespace GuideRig

/-- The token of a session. -/
structure Session where
  id : String
  deriving DecidableEq, Repr

namespace Session

/-- The name of the cookie that carries the session. -/
def cookieName : String := "wag.session"

/-- How many characters a random session has. -/
def randomLength : Nat := 64

/-- How many characters a random session may be made of: `a` to `z`, and `{`. -/
def alphabetSize : Nat := 27

/-- The character of the alphabet at a place: `a` stands at 0. -/
def letter (n : Nat) : Char := Char.ofNat ('a'.toNat + n)

/-- A random session, and the words left. -/
def random (w : Words) : Session × Words :=
  let (ns, w) := w.manyBelow alphabetSize randomLength
  (⟨String.ofList (ns.map letter)⟩, w)

/-- The value of the `Cookie` header. -/
def cookie (s : Session) : String := cookieName ++ "=" ++ s.id

end Session

end GuideRig

import Offload.Json.Lexer

/-!
Reading a JSON text. The tokens drive a stack of open arrays and objects, so a document of any depth
is read in one pass over them.
-/

namespace Offload.Json

/--
An open array or object with what it holds so far, the latest first; `named` is an object that owes
a value.
-/
inductive Frame
  | items (done : List Json)
  | members (done : List (Option String × Json))
  | named (done : List (Option String × Json)) (name : Option String)

inductive Expect
  | element (stack : List Frame)
  | firstElement (stack : List Frame)
  | firstKey (stack : List Frame)
  | key (stack : List Frame)
  | colon (stack : List Frame)
  | separator (stack : List Frame)
  | nothing (document : Json)

namespace Expect

/-- Puts a finished value where the innermost frame waits for one. -/
def put (value : Json) : List Frame → Option Expect
  | [] => some (.nothing value)
  | .items done :: stack => some (.separator (.items (value :: done) :: stack))
  | .named done name :: stack => some (.separator (.members ((name, value) :: done) :: stack))
  | .members _ :: _ => none

def start (stack : List Frame) : Token → Option Expect
  | .leaf value => put value stack
  | .openArray => some (.firstElement (.items [] :: stack))
  | .openObject => some (.firstKey (.members [] :: stack))
  | _ => none

def startName : List Frame → Token → Option Expect
  | .members done :: stack, .leaf (.string name) => some (.colon (.named done name :: stack))
  | _, _ => none

def step : Expect → Token → Option Expect
  | .element stack, token => start stack token
  | .firstElement (.items [] :: stack), .closeArray => put (.array []) stack
  | .firstElement stack, token => start stack token
  | .firstKey (.members [] :: stack), .closeObject => put (.object []) stack
  | .firstKey stack, token => startName stack token
  | .key stack, token => startName stack token
  | .colon stack, .colon => some (.element stack)
  | .separator (.items done :: stack), .comma => some (.element (.items done :: stack))
  | .separator (.items done :: stack), .closeArray => put (.array done.reverse) stack
  | .separator (.members done :: stack), .comma => some (.key (.members done :: stack))
  | .separator (.members done :: stack), .closeObject => put (.object done.reverse) stack
  | _, _ => none

end Expect

def parse? (source : String) : Option Json := do
  let tokens ← tokens? source.toList
  match ← tokens.foldlM Expect.step (.element []) with
  | .nothing document => some document
  | _ => none

end Offload.Json

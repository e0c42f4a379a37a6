import FieldFlow.Container.Bodies

/-!
# Containers

The binary file that holds a list of constructor bodies.

## Main Definitions

* `Container.encode`: the file for a list of bodies
* `Container.decode`: the bodies of a file

## Design Notes

A file begins with four letters and a version. The version is repeated in the payload, which holds
the bodies. Whatever follows the payload is ignored.
-/

namespace FieldFlow

/-- Why a file does not hold bodies. -/
inductive ContainerError where
  | tooShort (bytes : Nat)
  | noMagic
  | unknownVersion (version : Nat)
  | payload (fault : Bytes.Fault)
  | versionMismatch (header payload : Nat)
  | invalid (fault : BodyFault)
  deriving DecidableEq, Repr

namespace Container

/-- The letters with which every file begins. -/
def magic : List UInt8 := [0x43, 0x54, 0x4F, 0x52]

/-- The version that is written and read. -/
def version : Nat := 1

/-- The number of bytes of the letters and the version. -/
def headerLength : Nat := 8

/-- The file for a list of bodies. -/
def encode (bodies : List Body) : List UInt8 :=
  magic ++ Bytes.number 4 version ++ Bytes.number 4 version ++ Bytes.list Body.toBytes bodies

/-- Reads the payload: a version and a list of bodies. -/
def readPayload : Bytes.Reader (Nat × List Body) :=
  (Bytes.readNumber 4).andThen fun version =>
  (Bytes.readList Bytes.readBody).map fun bodies => (version, bodies)

/-- The bodies of a payload whose header gives the version that is read. -/
def decodePayload (payload : List UInt8) : Except ContainerError (List Body) :=
  match readPayload payload with
  | .error fault => .error (.payload fault)
  | .ok ((payloadVersion, bodies), _) =>
    if payloadVersion ≠ version then .error (.versionMismatch version payloadVersion)
    else
      match Body.checkAll bodies with
      | .error fault => .error (.invalid fault)
      | .ok () => .ok bodies

/-- The bodies of a file. -/
def decode (bytes : List UInt8) : Except ContainerError (List Body) :=
  if bytes.length < headerLength then .error (.tooShort bytes.length)
  else if bytes.take 4 ≠ magic then .error .noMagic
  else
    let headerVersion := Bytes.value ((bytes.drop 4).take 4)
    if headerVersion ≠ version then .error (.unknownVersion headerVersion)
    else decodePayload (bytes.drop headerLength)

end Container

namespace Bytes

/-- The fault in words, where bytes have a value that has no meaning. -/
def Fault.message? : Fault → Option String
  | .noAlternative index alternatives =>
    some ("invalid value: integer `" ++ toString index ++
      "`, expected variant index 0 <= i < " ++ toString alternatives)
  | .noTag tag => some ("tag for enum is not valid, found " ++ toString tag)
  | _ => none

end Bytes

/-- The error in words, where the file has the wrong format. -/
def ContainerError.formatMessage? : ContainerError → Option String
  | .tooShort bytes => some (toString bytes ++ " bytes is too short for a body file")
  | .noMagic => some "not a constructor body file (missing CTOR magic)"
  | .unknownVersion version =>
    some ("body file version " ++ toString version ++
      " cannot be read, this build reads version " ++ toString Container.version)
  | .versionMismatch outer inner =>
    some ("header says version " ++ toString outer ++ " but the payload says " ++ toString inner)
  | .invalid fault => some fault.message
  | .payload _ => none

end FieldFlow

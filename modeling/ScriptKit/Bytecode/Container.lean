import ScriptKit.Bytecode.Basic

/-! Code in a file: a first line that names the program to run it with, a mark, a version, and the
code itself. -/

namespace ScriptKit

inductive ContainerError where
  /-- The file cannot be read or written. -/
  | io (message : String)
  | badMagic
  | unsupportedVersion (version : UInt8)
deriving DecidableEq, Repr

namespace Container

def version : UInt8 := 1

def header : List UInt8 :=
  "#!/usr/bin/env bvm\n\x00BVM".toUTF8.data.toList

def encode (code : Bytecode) : List UInt8 :=
  header ++ version :: code.toList

def decode (bytes : List UInt8) : Except ContainerError Bytecode :=
  if bytes.take header.length = header then
    match bytes.drop header.length with
    | [] => .error .badMagic
    | v :: code => if v = version then .ok (.ofList code) else .error (.unsupportedVersion v)
  else .error .badMagic

end Container

namespace ContainerError

def summary : ContainerError → String
  | io _ => "cannot access bytecode file"
  | badMagic => "not a bytecode file"
  | unsupportedVersion _ => "unsupported bytecode version"

def message (e : ContainerError) : String :=
  match e with
  | io text => e.summary ++ ": " ++ text
  | badMagic => e.summary
  | unsupportedVersion v =>
    e.summary ++ " " ++ toString v.toNat ++ " (expected " ++ toString Container.version.toNat ++ ")"

end ContainerError

end ScriptKit

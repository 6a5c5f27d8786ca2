import TunnelIngress.Resource.Kind
import TunnelIngress.Text.Pieces

/-!
Keys of cluster objects, and keys of work: a kind with the key of an object of that kind. A key is
written `namespace/name`, or `name` alone when the namespace is empty.
-/

namespace TunnelIngress

/-- Why a text is no key. -/
inductive KeyError where
  | unknownKind (text : String)
  | missingKind (text : String)
  | format (text : String)
deriving DecidableEq, Repr

def KeyError.message : KeyError → String
  | unknownKind text => s!"unknown resource kind '{text}'"
  | missingKind text => s!"key '{text}' has no kind separator"
  | format text => s!"unexpected key format '{text}'"

def Kind.read (s : String) : Except KeyError Kind :=
  match Kind.ofName? s with
  | some kind => .ok kind
  | none => .error (.unknownKind s)

structure ResourceKey where
  ns : String
  name : String
deriving DecidableEq, Repr, Ord

namespace ResourceKey

/-- The key of an object whose metadata may leave out either part. -/
def ofMetadata (ns name : Option String) : ResourceKey :=
  ⟨ns.getD "", name.getD ""⟩

def hasNamespace (key : ResourceKey) : Bool :=
  !key.ns.isEmpty

def text (key : ResourceKey) : String :=
  if key.ns.isEmpty then key.name else key.ns ++ "/" ++ key.name

def read (s : String) : Except KeyError ResourceKey :=
  match Text.pieces '/' s with
  | [name] => if name.isEmpty then .error (.format s) else .ok ⟨"", name⟩
  | [ns, name] => if name.isEmpty then .error (.format s) else .ok ⟨ns, name⟩
  | _ => .error (.format s)

end ResourceKey

structure WorkKey where
  kind : Kind
  key : ResourceKey
deriving DecidableEq, Repr

namespace WorkKey

def text (work : WorkKey) : String :=
  work.kind.name ++ "/" ++ work.key.text

/-- The kind is read before the key, so a fault in the kind is the one reported. -/
def read (s : String) : Except KeyError WorkKey :=
  match Text.cut? '/' s with
  | none => .error (.missingKind s)
  | some (kind, key) => do
    let kind ← Kind.read kind
    let key ← ResourceKey.read key
    return ⟨kind, key⟩

end WorkKey

end TunnelIngress

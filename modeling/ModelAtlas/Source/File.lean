import ModelAtlas.Source.Declaration
import ModelAtlas.Source.Parse.Run
import ModelAtlas.Text.Quoted

/-!
# Source files

A `SourceFile` is a path with what the text found there declares. Classes count only where they
stand at the top of the file.
-/

namespace ModelAtlas.Source

/-- What a source declares at its top, in order. -/
structure Contents where
  classes : List ClassDecl := []
  /-- The pairs of every dictionary that is a statement. -/
  entries : List (String × Expr) := []
deriving Repr

namespace Contents

/-- The declarations of a module; a source that is no module has none. -/
def ofNode (n : Node) : Contents :=
  if n.is "module" then
    { classes := n.children.filterMap Node.classDecl?
      entries := n.children.flatMap Node.entries }
  else {}

def ofSource (source : List Char) : Contents :=
  ofNode (Node.ofTree Parse.sourceAutomaton.grammar none none
    (Parse.treeOf Parse.sourceAutomaton source))

end Contents

structure SourceFile where
  path : String
  contents : Contents
deriving Repr

namespace SourceFile

def parse (path source : String) : SourceFile := ⟨path, Contents.ofSource source.toList⟩

/-- The classes at the top of the file, in order. -/
def classes (f : SourceFile) : List ClassDecl := f.contents.classes

/-- The class that covers exactly these bytes. -/
def classAt (f : SourceFile) (bytes : ByteRange) : Option ClassDecl :=
  f.classes.find? (·.bytes == bytes)

def location (f : SourceFile) (range : Range) : Location := ⟨f.path, range⟩

/-- The pairs of every dictionary that is a statement at the top of the file, in order. -/
def manifestEntries (f : SourceFile) : List (String × Expr) := f.contents.entries

/-! ### As text -/

def describe (f : SourceFile) : String :=
  "SourceFile \x7b path: " ++ Text.quote f.path ++ ", .. \x7d"

def describeClass (f : SourceFile) (c : ClassDecl) : String :=
  "ClassDecl \x7b name: " ++ Text.quote c.name ++ ", file: " ++ Text.quote f.path ++ " \x7d"

end SourceFile

end ModelAtlas.Source

import RouteScribe.Document.Yaml
import RouteScribe.Files.Ignore
import RouteScribe.Source.Program

/-!
# The tools that a project is read and written with

A survey of a project, and what is made of it, rest on tools that are no part of them: a parser, a
compiler for ignore lines, a writer for YAML, and the encodings of files and of the console.  They are
handed in as `Tools`, and what is said of surveys and commands holds whatever the tools are.

`Tools.standard` are the tools of this library.  Texts here are made of whole characters, which can all be
encoded; a text that comes from an argument or from the name of a file need not be.
-/

namespace RouteScribe.Project

/-- What a survey of a project, and what is made of it, rest on. -/
structure Tools where
  /-- The tree of a text, if the text is well formed. -/
  parse : Source.Dialect → String → Option Source.Node
  /-- The rules that ignore lines stand for. -/
  compile : Files.IgnoreCompiler
  /-- The YAML text of a document. -/
  yamlText : Document.Value → String
  /-- Can a text be encoded, to be written to a file? -/
  encodes : String → Bool
  /-- Can a text be printed? -/
  prints : String → Bool

/-- The tools of this library. -/
def Tools.standard : Tools where
  parse := Source.parse
  compile := Files.compileIgnores
  yamlText := Document.Value.yamlText
  encodes _ := true
  prints _ := true

end RouteScribe.Project

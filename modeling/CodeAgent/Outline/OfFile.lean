import CodeAgent.Index.Language
import CodeAgent.Outline.Go
import CodeAgent.Outline.Python
import CodeAgent.Outline.Rust
import CodeAgent.Outline.TypeScript
import CodeAgent.Syntax.Go.Grammar
import CodeAgent.Syntax.Python.Grammar
import CodeAgent.Syntax.Rust.Grammar
import CodeAgent.Syntax.TypeScript.Grammar

/-! The outline of a file's text. -/
namespace CodeAgent.Outline

open Syntax

/-- How a language is read: the tree of a text, and what its constructs add to an outline. -/
structure Reading where
  tree : String → Tree
  findings : Source → Node → Findings

def reading : Language → Reading
  | .typeScript => ⟨TypeScript.tree false, Outline.TypeScript.file⟩
  | .tsx | .javaScript => ⟨TypeScript.tree true, Outline.TypeScript.file⟩
  | .python => ⟨Python.tree, Outline.Python.file⟩
  | .rust => ⟨Rust.tree, Outline.Rust.file⟩
  | .go => ⟨Go.tree, Outline.Go.file⟩

def ofFile (language : Language) (content : String) : Outline :=
  let r := reading language
  let tree := r.tree content
  Outline.of language.name (r.findings (.ofString content) tree.root) tree.problem

end CodeAgent.Outline

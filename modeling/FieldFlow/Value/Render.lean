import FieldFlow.Value.Cells

/-!
# Rendered values

The text of a value in messages.

## Main Definitions

* `Cells.render`: the text of a value

## Design Notes

Text is produced for at most `renderLimit` nodes; any further node is written as an ellipsis. A
reference counts as a node of its own before the content of its cell, and a reference to a cell
that is being written already is written as a cycle. Every nested node costs one of the nodes that
are left, so the nesting is never deeper than that number, on which the recursion runs.
-/

namespace FieldFlow

/-- Nodes of a value that are written in full. -/
def renderLimit : Nat := 256

namespace Cells

/-- Text written so far, and the number of nodes that may still be written in full. -/
structure Page where
  text : String
  budget : Nat

namespace Page

/-- Appends text that is no node. -/
def append (page : Page) (text : String) : Page :=
  { page with text := page.text ++ text }

end Page

/-- Appends a value to a page. The path holds the cells whose contents are being written. -/
def renderOnto (cells : Cells) (path : List CellId) : Nat → Page → Value → Page
  | 0, page, _ => page.append "..."
  | depth + 1, page, value =>
    if page.budget = 0 then page.append "..."
    else
      let page : Page := { page with budget := page.budget - 1 }
      let arguments (page : Page) (args : List Value) : Page :=
        match args with
        | [] => page
        | first :: more =>
          more.foldl (fun page arg => renderOnto cells path depth (page.append ", ") arg)
            (renderOnto cells path depth page first)
      match value with
      | .this => page.append "this"
      | .parameter index _ => page.append ("p" ++ toString index)
      | .constant constant => page.append constant.text
      | .int value => page.append (toString value.toInt)
      | .ref cell =>
        if path.contains cell then page.append "<cycle>"
        else renderOnto cells (cell :: path) depth page (cells.content cell)
      | .new className => page.append ("new " ++ className)
      | .methodCall receiver name args =>
        let page := renderOnto cells path depth page receiver
        (arguments (page.append ("." ++ name ++ "(")) args).append ")"
      | .staticCall owner name args =>
        (arguments (page.append (owner ++ "." ++ name ++ "(")) args).append ")"
      | .fieldRead receiver name =>
        (renderOnto cells path depth page receiver).append ("." ++ name)
      | .staticField owner name => page.append (owner ++ "#" ++ name)
      | .binaryOp operator left right =>
        let page := renderOnto cells path depth page left
        renderOnto cells path depth (page.append (" " ++ operator.symbol ++ " ")) right

/-- The text of a value. -/
def render (cells : Cells) (value : Value) : String :=
  (cells.renderOnto [] renderLimit ⟨"", renderLimit⟩ value).text

end Cells

end FieldFlow

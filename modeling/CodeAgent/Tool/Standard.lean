import CodeAgent.Settings
import CodeAgent.Tool.Analysis
import CodeAgent.Tool.Edit
import CodeAgent.Tool.Read
import CodeAgent.Tool.Repository
import CodeAgent.Tool.Run
import CodeAgent.Tool.Search

/-! The tools that every project has. -/
namespace CodeAgent

def standardTools (root : String) (settings : Settings) : List (Tool Act) :=
  let policy := CommandPolicy.withExtra settings.security.blacklist settings.security.whitelist
  let autoApply := settings.edit.autoApply
  [Tool.getLines root, Tool.getFunction root, Tool.getStructure root,
    Tool.editLines root autoApply, Tool.createFile root autoApply,
    Tool.findReferences root, Tool.findDefinition,
    Tool.getDependencies root, Tool.getDependents root, Tool.getComplexity root, Tool.getTodos root,
    Tool.gitStatus root, Tool.gitDiff root,
    Tool.runCommand root policy, Tool.runTests root]

def standardNames : List String :=
  ["get_lines", "get_function", "get_structure", "edit_lines", "create_file", "find_references",
    "find_definition", "get_dependencies", "get_dependents", "get_complexity", "get_todos",
    "git_status", "git_diff", "run_command", "run_tests"]

namespace Registry

def standard (root : String) (settings : Settings) : Registry Act := ⟨standardTools root settings⟩

theorem names_standard (root : String) (settings : Settings) :
    (standard root settings).names = standardNames := rfl

end Registry

theorem standardNames_nodup : standardNames.Nodup := by decide

end CodeAgent

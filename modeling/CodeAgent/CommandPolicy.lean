import CodeAgent.Text.Word
import CodeAgent.Text.Casing
import CodeAgent.Text.Find

/-! Which shell commands may run.
A blocked pattern anywhere in the command refuses it, a trusted program lets it run, and everything
else needs a user's approval; `git` is trusted for the subcommands that leave the repository alone. -/
namespace CodeAgent

inductive Verdict where
  | allowed | blocked | requiresConfirmation
deriving DecidableEq, Repr, Inhabited

namespace Verdict

def name : Verdict → String
  | allowed => "allowed"
  | blocked => "blocked"
  | requiresConfirmation => "requires_confirmation"

end Verdict

/-- Why a command has its verdict. -/
inductive VerdictReason where
  | emptyCommand
  | blockedPattern (pattern : String)
  | trusted (program : String)
  | safeGit (subcommand : String)
  | unsafeGit (subcommand : String)
  | bareGit
  | untrusted (program : String)
deriving DecidableEq, Repr, Inhabited

namespace VerdictReason

def verdict : VerdictReason → Verdict
  | emptyCommand | blockedPattern _ => .blocked
  | trusted _ | safeGit _ => .allowed
  | unsafeGit _ | bareGit | untrusted _ => .requiresConfirmation

def message : VerdictReason → String
  | emptyCommand => "Empty command"
  | blockedPattern p => "Command contains blocked pattern '" ++ Text.trim p ++ "'"
  | trusted p => "'" ++ p ++ "' is whitelisted"
  | safeGit s => "'git " ++ s ++ "' is a safe git command"
  | unsafeGit s => "'git " ++ s ++ "' may modify the repository"
  | bareGit => "git without a subcommand"
  | untrusted p => "'" ++ p ++ "' is not in the whitelist"

end VerdictReason

/-- The lists only grow. -/
structure CommandPolicy where
  blocked : List String
  trusted : List String
deriving DecidableEq, Repr, Inhabited

namespace CommandPolicy

def blockedByDefault : List String :=
  ["rm -rf", "rm -r", "rm -fr", "sudo ", "su -", "git push --force", "git push -f",
    "git reset --hard", "git clean -f", "npm publish", "cargo publish", "chmod -r 777", "chown -r",
    "mkfs", "dd if=", "> /dev/sd", ":()\x7b :|:& \x7d;:"]

def trustedByDefault : List String :=
  ["npm", "pnpm", "yarn", "npx", "node", "bun", "deno", "tsc", "vitest", "jest", "eslint",
    "prettier", "cargo", "rustc", "go", "python", "python3", "pytest", "make", "git", "ls",
    "cat", "head", "tail", "wc", "grep", "rg", "find", "echo", "pwd", "which", "tree"]

/-- Subcommands of `git` that run without asking. -/
def safeGit : List String :=
  ["status", "log", "diff", "show", "branch", "remote", "fetch", "pull", "stash", "tag",
    "blame", "ls-files", "ls-tree", "rev-parse", "describe"]

/-- Commands and list entries are compared without blanks around them and in lower case. -/
def normalize (s : String) : String := Text.lower (Text.trim s)

/-- Adds the entries that are new and not empty. -/
def extend (list : List String) : List String → List String
  | [] => list
  | item :: rest =>
    let item := normalize item
    extend (if item.isEmpty || item ∈ list then list else list ++ [item]) rest

def preset : CommandPolicy := ⟨blockedByDefault, trustedByDefault⟩

def block (p : CommandPolicy) (items : List String) : CommandPolicy :=
  { p with blocked := extend p.blocked items }

def trust (p : CommandPolicy) (items : List String) : CommandPolicy :=
  { p with trusted := extend p.trusted items }

def withExtra (blocked trusted : List String) : CommandPolicy :=
  (preset.block blocked).trust trusted

def judgeGit : List String → VerdictReason
  | [] => .bareGit
  | sub :: _ => if sub ∈ safeGit then .safeGit sub else .unsafeGit sub

def judge (p : CommandPolicy) (command : String) : VerdictReason :=
  let command := normalize command
  if command.isEmpty then .emptyCommand
  else
    match p.blocked.find? (Text.contains command) with
    | some pattern => .blockedPattern pattern
    | none =>
      let tokens := Text.words command
      let program := tokens.headD ""
      if program ∈ p.trusted then
        if program = "git" then judgeGit tokens.tail else .trusted program
      else .untrusted program

def verdict (p : CommandPolicy) (command : String) : Verdict := (p.judge command).verdict

end CommandPolicy

end CodeAgent

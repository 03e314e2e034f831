/-!
# Exit statuses

How an external program ended, told from its exit status. A status below zero means
that the program was ended by the signal whose number is the status without its sign;
any other status is one that the program chose itself.
-/
namespace RpcScaffold.ExitStatus

/-- The signals that have a name, by ascending number. Of the real-time signals only the
lowest and the highest do. -/
def signals : List (Nat × String) :=
  [(1, "SIGHUP"), (2, "SIGINT"), (3, "SIGQUIT"), (4, "SIGILL"), (5, "SIGTRAP"), (6, "SIGABRT"),
    (7, "SIGBUS"), (8, "SIGFPE"), (9, "SIGKILL"), (10, "SIGUSR1"), (11, "SIGSEGV"),
    (12, "SIGUSR2"), (13, "SIGPIPE"), (14, "SIGALRM"), (15, "SIGTERM"), (16, "SIGSTKFLT"),
    (17, "SIGCHLD"), (18, "SIGCONT"), (19, "SIGSTOP"), (20, "SIGTSTP"), (21, "SIGTTIN"),
    (22, "SIGTTOU"), (23, "SIGURG"), (24, "SIGXCPU"), (25, "SIGXFSZ"), (26, "SIGVTALRM"),
    (27, "SIGPROF"), (28, "SIGWINCH"), (29, "SIGIO"), (30, "SIGPWR"), (31, "SIGSYS"),
    (34, "SIGRTMIN"), (64, "SIGRTMAX")]

def signalText (number : Nat) : String :=
  match signals.lookup number with
  | some name => "<Signals." ++ name ++ ": " ++ toString number ++ ">"
  | none => "unknown signal " ++ toString number

/-- How a program that failed with the given status ended, in words. -/
def failureText (status : Int) : String :=
  if status < 0 then "died with " ++ signalText status.natAbs
  else "returned non-zero exit status " ++ toString status

end RpcScaffold.ExitStatus

import SearchSyscall.Basic
import SearchSyscall.Match
import SearchSyscall.Glob
import SearchSyscall.Result
import SearchSyscall.Fs
import SearchSyscall.State
import SearchSyscall.Decode
import SearchSyscall.Walk
import SearchSyscall.WalkLemmas
import SearchSyscall.Syscall
import SearchSyscall.SyscallLemmas
import SearchSyscall.Accounting
import SearchSyscall.Hits
import SearchSyscall.Lang
import SearchSyscall.Traversal
import SearchSyscall.Overflow
import SearchSyscall.Alternation
import SearchSyscall.PatternScan
import SearchSyscall.PathWalk
import SearchSyscall.Shortcut
import SearchSyscall.RecordPaths
import SearchSyscall.Listing
import SearchSyscall.Mounts
import SearchSyscall.SkippedDirs
import SearchSyscall.ReadWrite.Offsets
import SearchSyscall.ReadWrite.Files
import SearchSyscall.ReadWrite.Llseek
import SearchSyscall.ReadWrite.Verify
import SearchSyscall.ReadWrite.Iovec
import SearchSyscall.ReadWrite.Transfer
import SearchSyscall.ReadWrite.Sendfile
import SearchSyscall.ReadWrite.Syscalls
import SearchSyscall.ReadWrite.Positions
import SearchSyscall.ReadWrite.Counts
import SearchSyscall.ReadWrite.OneSegment
import SearchSyscall.ReadWrite.AtPosition
import SearchSyscall.ReadWrite.IoAccounting
import SearchSyscall.ReadWrite.Frame

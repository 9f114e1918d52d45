import AgentOS.Lib.Chain
import AgentOS.Lib.Clip
import AgentOS.Lib.Fields
import AgentOS.Lib.Fifo
import AgentOS.Lib.Mask
import AgentOS.Lib.MoveFront
import AgentOS.Lib.Numeral
import AgentOS.Lib.Outputs
import AgentOS.Lib.Owner
import AgentOS.Lib.Radix
import AgentOS.Lib.Redo
import AgentOS.Lib.RefCount
import AgentOS.Lib.Regex
import AgentOS.Lib.Ring
import AgentOS.Lib.Slice
import AgentOS.Lib.Sums
import AgentOS.Lib.Table
import AgentOS.Lib.Transition
import AgentOS.Lib.TwoWay
import AgentOS.Lib.Utf8
import AgentOS.Lib.Words
import AgentOS.Model.Access
import AgentOS.Model.AgentCalls
import AgentOS.Model.Attributes
import AgentOS.Model.Authority
import AgentOS.Model.Batch
import AgentOS.Model.BlockFs
import AgentOS.Model.BufferCache
import AgentOS.Model.Context
import AgentOS.Model.Create
import AgentOS.Model.CreateCall
import AgentOS.Model.Delivery
import AgentOS.Model.Disk
import AgentOS.Model.DynamicCall
import AgentOS.Model.File
import AgentOS.Model.FileIndex
import AgentOS.Model.FileSystem
import AgentOS.Model.FileTree
import AgentOS.Model.Filemod
import AgentOS.Model.Handle
import AgentOS.Model.Header
import AgentOS.Model.Heartbeat
import AgentOS.Model.Lease
import AgentOS.Model.LeaseTable
import AgentOS.Model.LlmGate
import AgentOS.Model.LlmProxy
import AgentOS.Model.Log
import AgentOS.Model.Loop
import AgentOS.Model.Mapping
import AgentOS.Model.Mark
import AgentOS.Model.Member
import AgentOS.Model.Message
import AgentOS.Model.NumberTools
import AgentOS.Model.PageTable
import AgentOS.Model.Param
import AgentOS.Model.ParamScan
import AgentOS.Model.Patch
import AgentOS.Model.Pipe
import AgentOS.Model.Proc
import AgentOS.Model.Query
import AgentOS.Model.QueryCache
import AgentOS.Model.QueryShare
import AgentOS.Model.Router
import AgentOS.Model.Sched
import AgentOS.Model.Space
import AgentOS.Model.Tool
import AgentOS.Model.ToolCall
import AgentOS.Model.Trusted
import AgentOS.Model.Version
import AgentOS.Model.VmaTable
import AgentOS.Model.Wait
import AgentOS.Model.Wheel
import AgentOS.Model.Workflow
import AgentOS.Proof.Access
import AgentOS.Proof.AgentCalls
import AgentOS.Proof.AttrQuery
import AgentOS.Proof.Attributes
import AgentOS.Proof.Authority
import AgentOS.Proof.Batch
import AgentOS.Proof.BlockAlloc
import AgentOS.Proof.BlockBitmap
import AgentOS.Proof.BlockFiles
import AgentOS.Proof.BlockInodes
import AgentOS.Proof.BlockSlots
import AgentOS.Proof.BlockSound
import AgentOS.Proof.BlockTrunc
import AgentOS.Proof.BlockWrite
import AgentOS.Proof.Branches
import AgentOS.Proof.BufCache
import AgentOS.Proof.BufList
import AgentOS.Proof.BufRefine
import AgentOS.Proof.Cascade
import AgentOS.Proof.Context
import AgentOS.Proof.Coverage
import AgentOS.Proof.CreateCall
import AgentOS.Proof.Delivery
import AgentOS.Proof.Deps
import AgentOS.Proof.Digest
import AgentOS.Proof.Discovery
import AgentOS.Proof.DynamicCall
import AgentOS.Proof.Exit
import AgentOS.Proof.FileIndex
import AgentOS.Proof.FileSystem
import AgentOS.Proof.FileTable
import AgentOS.Proof.FileTree
import AgentOS.Proof.Filemod
import AgentOS.Proof.FreshRead
import AgentOS.Proof.Handle
import AgentOS.Proof.Header
import AgentOS.Proof.Heartbeat
import AgentOS.Proof.IndexBuild
import AgentOS.Proof.Kill
import AgentOS.Proof.Lease
import AgentOS.Proof.LeaseTable
import AgentOS.Proof.LlmGate
import AgentOS.Proof.LlmReply
import AgentOS.Proof.LlmRequest
import AgentOS.Proof.LogCommit
import AgentOS.Proof.LogCrash
import AgentOS.Proof.LogDisk
import AgentOS.Proof.LogHeader
import AgentOS.Proof.LogOps
import AgentOS.Proof.LogRefine
import AgentOS.Proof.LogRoom
import AgentOS.Proof.LogSleep
import AgentOS.Proof.LogWrites
import AgentOS.Proof.Mailbox
import AgentOS.Proof.Mapping
import AgentOS.Proof.Mark
import AgentOS.Proof.Marked
import AgentOS.Proof.Member
import AgentOS.Proof.Numbers
import AgentOS.Proof.PageCopy
import AgentOS.Proof.PageFree
import AgentOS.Proof.PageGrow
import AgentOS.Proof.PageOps
import AgentOS.Proof.PageRoom
import AgentOS.Proof.PageShape
import AgentOS.Proof.PageUser
import AgentOS.Proof.PageWalk
import AgentOS.Proof.ParamScan
import AgentOS.Proof.Patch
import AgentOS.Proof.Path
import AgentOS.Proof.Pipe
import AgentOS.Proof.Pte
import AgentOS.Proof.PushFailure
import AgentOS.Proof.Query
import AgentOS.Proof.QueryFollow
import AgentOS.Proof.QueryShare
import AgentOS.Proof.RecordText
import AgentOS.Proof.Region
import AgentOS.Proof.Registry
import AgentOS.Proof.ReplyOnce
import AgentOS.Proof.ResultText
import AgentOS.Proof.Sched
import AgentOS.Proof.SchedScan
import AgentOS.Proof.Schedule
import AgentOS.Proof.Space
import AgentOS.Proof.Tamper
import AgentOS.Proof.Text
import AgentOS.Proof.Threads
import AgentOS.Proof.ToolCall
import AgentOS.Proof.Trusted
import AgentOS.Proof.Validate
import AgentOS.Proof.VmaLists
import AgentOS.Proof.VmaTable
import AgentOS.Proof.Wait
import AgentOS.Proof.WaitDeadline
import AgentOS.Proof.WakeSource
import AgentOS.Proof.Wheel
import AgentOS.Proof.WheelLists
import AgentOS.Proof.WheelTick
import AgentOS.Proof.Workflow
import AgentOS.Proof.Writeback

import MyOperator.KvCache.Hybrid
import MyOperator.Sched.Isolation
import MyOperator.Sched.EncoderBookkeeping
import MyOperator.Offload.Eviction
import MyOperator.Eplb.Validity
import MyOperator.KvCache.Events
import MyOperator.Sched.PriorityRuns
import MyOperator.Recompute.Disposal
import MyOperator.Shm.BroadcastRuns
import MyOperator.Shm.ObjectRuns
import MyOperator.AscendEplb.ExchangePlan
import MyOperator.DataParallel.WaveRuns
import MyOperator.Eplb.ExecuteSound
import MyOperator.Multimodal.MirrorRuns
import MyOperator.Detok.Streaming
import MyOperator.Detok.Grouping
import MyOperator.Outputs.BookRuns
import MyOperator.Outputs.DeliveryRuns
import MyOperator.Sampling.Lossless
import MyOperator.Worker.LogitsRuns
import MyOperator.KvCache.SlidingOptimal
import MyOperator.Sched.Fairness
import MyOperator.Sched.Budget
import MyOperator.StridedSlice.Unknown
import MyOperator.StridedSlice.SameOffsets
import MyOperator.Offload.ArcInvariants
import MyOperator.Sched.Repetition
import MyOperator.Sched.MambaSplit
import MyOperator.Worker.SlotMapping
import MyOperator.KvConfig.Groups
import MyOperator.KvConfig.AutoFit
import MyOperator.Sampling.Ngram
import MyOperator.KvCache.CommonPrefix
import MyOperator.AscendEplb.SwiftPlacement
import MyOperator.Transpose.CoreSplit
import MyOperator.Transpose.AxisMerge
import MyOperator.Sched.DynamicBudget
import MyOperator.AscendEplb.InitialMaps
import MyOperator.Sampling.RandomVerify
import MyOperator.Sampling.GreedyVerify
import MyOperator.StructuredOutput.ApplyBitmask
import MyOperator.Worker.ThinkingBudget
import MyOperator.Hamming.CoreTasks
import MyOperator.KvCache.QueueRuns
import MyOperator.KvCache.MapRuns
